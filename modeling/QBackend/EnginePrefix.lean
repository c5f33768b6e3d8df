import QBackend.EngineTrades
import QBackend.EvaluatorCalls
import QBackend.OrderedSeries
import Mathlib.Data.List.Dedup

/-!
# Prefix stability of the engine

On a causal strategy, a run over a frame and a run over a prefix of it go through the same states as
long as the prefix lasts. What the longer run does later closes or opens trades at later bars only,
so the trades closed within the prefix are the same in both.
-/

namespace QBackend.Backtesting

open Execution FallibleSteps OrderedSeries

/-! ## Cut frames -/

/-- The first `n` rows of an indicator frame. -/
def cutFrame (n : ℕ) (frame : IndicatorFrame) : IndicatorFrame :=
  { bars := frame.bars.take n, columns := frame.columns.map fun c => (c.1, c.2.take n) }

section Frames

variable {n : ℕ} {frame : IndicatorFrame}

theorem rows_cutFrame (n : ℕ) (frame : IndicatorFrame) :
    (cutFrame n frame).rows = frame.rows.take n := by
  refine List.ext_getElem? fun i => ?_
  simp only [IndicatorFrame.rows, cutFrame, List.getElem?_mapIdx, List.getElem?_take]
  split
  next hi =>
    congr 1
    funext bar
    simp only [IndicatorFrame.row, List.map_map, Function.comp_def, List.getElem?_take, if_pos hi]
  · rfl

theorem bars_rows (frame : IndicatorFrame) : frame.rows.map BarRow.bar = frame.bars := by
  refine List.ext_getElem? fun i => ?_
  simp [IndicatorFrame.rows, IndicatorFrame.row, Option.map_map, Function.comp_def]

@[simp] theorem hasColumn_cutFrame (name : String) :
    (cutFrame n frame).hasColumn name = frame.hasColumn name := by
  simp only [IndicatorFrame.hasColumn, cutFrame, List.map_map]
  rfl

theorem setColumn_cutFrame (name : String) (values : List (Option ℚ)) :
    (cutFrame n frame).setColumn name (values.take n) =
      cutFrame n (frame.setColumn name values) := by
  simp [IndicatorFrame.setColumn, cutFrame, List.filter_map, Function.comp_def]

theorem trueRanges_take (prev : Option ℚ) (bars : List Bar) :
    trueRanges prev (bars.take n) = (trueRanges prev bars).take n := by
  induction bars generalizing prev n with
  | nil => cases prev <;> simp [trueRanges]
  | cons bar rest ih =>
    cases n with
    | zero => cases prev <;> simp [trueRanges]
    | succ n => cases prev <;> simp [trueRanges, ih]

theorem ewmMean_take (alpha : ℚ) (prev : Option ℚ) (values : List ℚ) :
    ewmMean alpha prev (values.take n) = (ewmMean alpha prev values).take n := by
  induction values generalizing prev n with
  | nil => cases prev <;> simp [ewmMean]
  | cons x rest ih =>
    cases n with
    | zero => cases prev <;> simp [ewmMean]
    | succ n => cases prev <;> simp [ewmMean, ih]

theorem computeAtr_take (bars : List Bar) (period : ℕ) :
    computeAtr (bars.take n) period = (computeAtr bars period).take n := by
  unfold computeAtr
  rw [trueRanges_take, ewmMean_take]
  refine List.ext_getElem? fun i => ?_
  simp only [List.getElem?_mapIdx, List.getElem?_take]
  by_cases hi : i < n
  · simp only [if_pos hi]
  · simp only [if_neg hi, Option.map_none]

/-- A window that ends before row `i` lies within the first `n` rows. -/
theorem rollingShifted_take (pick : ℚ → ℚ → ℚ) (values : List ℚ) (period : ℕ) :
    rollingShifted pick (values.take n) period = (rollingShifted pick values period).take n := by
  unfold rollingShifted
  rw [← List.map_take, List.take_range, List.length_take]
  refine List.map_congr_left fun i hi => ?_
  rw [List.mem_range] at hi
  by_cases hp : period ≤ i
  · have hwindow : ((values.take n).drop (i - period)).take period =
        (values.drop (i - period)).take period := by
      rw [List.drop_take, List.take_take]
      congr 1
      omega
    simp only [if_pos hp, hwindow]
  · simp only [if_neg hp]

theorem addAtr_cut (period : ℤ) :
    MapsTo (cutFrame n) (addAtr frame period) (addAtr (cutFrame n frame) period) := by
  unfold addAtr
  split
  · exact mapsTo_error
  · split
    · exact mapsTo_error
    · refine mapsTo_ok ?_
      rw [← setColumn_cutFrame, ← computeAtr_take]
      rfl

theorem addDonchian_cut (period : ℤ) :
    addDonchian (cutFrame n frame) period = cutFrame n (addDonchian frame period) := by
  unfold addDonchian
  simp only [hasColumn_cutFrame]
  split
  · rfl
  · rw [← setColumn_cutFrame, ← setColumn_cutFrame, ← rollingShifted_take, ← rollingShifted_take,
      ← List.map_take, ← List.map_take]
    rfl

theorem completeColumns_cut (p : ExitParams) (frame : IndicatorFrame) :
    MapsTo (cutFrame n) (completeColumns p frame) (completeColumns p (cutFrame n frame)) := by
  have hatr : ∀ {step : IndicatorFrame → ExitColumn → Except ExecutionError IndicatorFrame},
      (∀ f column, MapsTo (cutFrame n) (step f column) (step (cutFrame n f) column)) →
      ∀ (columns : List ExitColumn) (frame : IndicatorFrame),
        MapsTo (cutFrame n) (columns.foldlM step frame) (columns.foldlM step (cutFrame n frame)) := by
    intro step h columns frame
    simpa only [List.map_id] using mapsTo_foldlM (e := id) h columns frame
  have hdonchian : ∀ (periods : List ℤ) (frame : IndicatorFrame),
      periods.foldl addDonchian (cutFrame n frame) =
        cutFrame n (periods.foldl addDonchian frame) := by
    intro periods
    induction periods with
    | nil =>
      intro frame
      rfl
    | cons period rest ih =>
      intro frame
      rw [List.foldl_cons, List.foldl_cons, addDonchian_cut, ih]
  unfold completeColumns
  simp only [hasColumn_cutFrame]
  refine mapsTo_bind (hatr ?_ _ frame) fun f => mapsTo_pure (hdonchian _ f)
  intro f column
  cases column with
  | atr period => exact addAtr_cut period
  | donchianHigh period => exact mapsTo_ok rfl
  | donchianLow period => exact mapsTo_ok rfl

end Frames

/-! ## Causal strategies -/

variable {S : Type} {strategy : TradingStrategy S}

/-- Two strategy objects that answer alike on the rows and trades of some bars. -/
structure SameChecks (strategy : TradingStrategy S) (s₁ s₂ : S) (bars : List Bar) : Prop where
  entries : ∀ row, row.bar ∈ bars →
    strategy.checkEntryConditions s₁ row = strategy.checkEntryConditions s₂ row
  exits : ∀ row trades, row.bar ∈ bars → (∀ t ∈ trades, t.entryTime ∈ bars.map Bar.openTime) →
    strategy.checkExitConditions s₁ row trades = strategy.checkExitConditions s₂ row trades

/-- The contract of `TradingStrategy`: indicators are added to the rows as they are, a value at a
row depends on the rows up to it, and so does what the checks say of that row. -/
structure CausalStrategy (strategy : TradingStrategy S) : Prop where
  bars : ∀ {s bars s' frame}, strategy.computeIndicators s bars = (s', .ok frame) →
    frame.bars = bars
  cut : ∀ {s bars n s₁ s₂ frame frame'}, strategy.computeIndicators s bars = (s₁, .ok frame) →
    strategy.computeIndicators s (bars.take n) = (s₂, .ok frame') →
      frame' = cutFrame n frame ∧ SameChecks strategy s₁ s₂ (bars.take n)

/-- The rows that the engine loops over, on a frame and on its prefix. -/
theorem CausalStrategy.augment (h : CausalStrategy strategy) {s s₁ s₂ : S} {bars : List Bar}
    {n : ℕ} {frame frame' : IndicatorFrame}
    (hfull : augmentIndicatorFrame strategy s bars = (s₁, .ok frame))
    (hcut : augmentIndicatorFrame strategy s (bars.take n) = (s₂, .ok frame')) :
    frame' = cutFrame n frame ∧ SameChecks strategy s₁ s₂ (bars.take n) := by
  unfold augmentIndicatorFrame at hfull hcut
  simp only [Prod.mk.injEq] at hfull hcut
  obtain ⟨hs₁, hfull⟩ := hfull
  obtain ⟨hs₂, hcut⟩ := hcut
  obtain ⟨chunk, hchunk, hcomplete⟩ := bind_eq_ok.mp hfull
  obtain ⟨chunk', hchunk', hcomplete'⟩ := bind_eq_ok.mp hcut
  obtain ⟨rfl, hchecks⟩ := h.cut (Prod.ext hs₁ hchunk) (Prod.ext hs₂ hchunk')
  rw [mapsTo_of_ok (completeColumns_cut _ chunk) hcomplete] at hcomplete'
  exact ⟨(Except.ok.inj hcomplete').symm, hchecks⟩

theorem CausalStrategy.augment_bars (h : CausalStrategy strategy) {s s' : S} {bars : List Bar}
    {frame : IndicatorFrame} (haugment : augmentIndicatorFrame strategy s bars = (s', .ok frame)) :
    frame.bars = bars := by
  unfold augmentIndicatorFrame at haugment
  simp only [Prod.mk.injEq] at haugment
  obtain ⟨chunk, hchunk, hcomplete⟩ := bind_eq_ok.mp haugment.2
  rw [completeColumns_bars hcomplete]
  exact h.bars (Prod.ext haugment.1 hchunk)

/-! ## The loop on a prefix -/

section Loop

variable {e : Engine} {lo : ℕ} {s₁ s₂ : S} {bars : List Bar} {times : Option DayTradeTimes}
  {tradeStart : Option Time} {row : BarRow} {st st' : EngineState}

theorem openTrades_entryTimes {T : List Time} (h : ∀ t ∈ st.trades, t.entryTime ∈ T) :
    ∀ t ∈ st.openTrades, t.entryTime ∈ T := by
  intro t ht
  obtain ⟨u, hu, rfl⟩ := List.mem_map.mp ht
  exact h u (List.mem_of_mem_filter hu)

theorem queueSignals_congr (hchecks : SameChecks strategy s₁ s₂ bars) (hrow : row.bar ∈ bars)
    (allowed : Bool) (hst : ∀ t ∈ st.trades, t.entryTime ∈ bars.map Bar.openTime) :
    queueSignals strategy s₁ row allowed st = queueSignals strategy s₂ row allowed st := by
  unfold queueSignals
  simp only [hchecks.entries row hrow]
  rw [hchecks.exits row _ hrow fun t ht =>
    openTrades_entryTimes hst t (List.mem_of_mem_filter ht)]

/-- What is carried over a step: identifiers in order and entries at times of the bars. -/
structure EntersWithin (e : Engine) (lo : ℕ) (T : List Time) (st : EngineState) : Prop where
  numbered : Numbered e lo st
  entries : ∀ t ∈ st.trades, t.entryTime ∈ T

theorem EntersWithin.advances {T : List Time} {P : TradeExit → Prop} {Q : Trade → Prop}
    (h : EntersWithin e lo T st) (hadv : Advances e lo P Q st st')
    (hQ : ∀ t, Q t → t.entryTime ∈ T) : EntersWithin e lo T st' := by
  obtain ⟨hnumbered, f, added, htrades, hkept, hadded⟩ := hadv h.numbered
  refine ⟨hnumbered, fun u hu => ?_⟩
  rw [htrades] at hu
  rcases List.mem_append.mp hu with hu | hu
  · obtain ⟨t, ht, rfl⟩ := List.mem_map.mp hu
    rcases hkept t ht with heq | ⟨-, htrade, -⟩
    · rw [heq]
      exact h.entries t ht
    · rw [htrade]
      exact h.entries t ht
  · exact hQ _ (hadded u hu).1

/-- A step reads the strategy object only through checks on its own row. -/
theorem stepBar_congr (hchecks : SameChecks strategy s₁ s₂ bars) (hrow : row.bar ∈ bars)
    (hst : EntersWithin e lo (bars.map Bar.openTime) st) (lastOfDay : Bool) :
    stepBar e strategy s₁ times tradeStart lastOfDay row st =
      stepBar e strategy s₂ times tradeStart lastOfDay row st := by
  have htime : row.bar.openTime ∈ bars.map Bar.openTime := List.mem_map_of_mem hrow
  have hexecuted : EntersWithin e lo (bars.map Bar.openTime)
      ((st.executeExits e row.bar.openTime row.bar.open_).executeEntries e row.bar.openTime
        row.bar.open_ row) := by
    refine EntersWithin.advances ?_ (executeEntries_advances (P := fun _ => True) _)
      fun t ht => ht.1 ▸ htime
    exact hst.advances (executeExits_advances (P := fun _ => True)
      (Q := fun t => t.entryTime ∈ bars.map Bar.openTime) (fun _ _ => trivial) st) fun _ ht => ht
  unfold stepBar
  dsimp only
  split
  · rfl
  · split
    · exact queueSignals_congr hchecks hrow _ hexecuted.entries
    · split
      · rfl
      · split
        · rfl
        · exact queueSignals_congr hchecks hrow _ hexecuted.entries

theorem stepBar_swing (lastOfDay lastOfDay' : Bool) :
    stepBar e strategy s₁ none tradeStart lastOfDay row st =
      stepBar e strategy s₁ none tradeStart lastOfDay' row st := rfl

theorem runRows_split {pre post : List BarRow} (hchecks : SameChecks strategy s₁ s₂ bars)
    (hrows : ∀ row ∈ pre, row.bar ∈ bars)
    (hboundary : times = none ∨ ∀ r ∈ pre, ∀ r' ∈ post, date r.bar ≠ date r'.bar)
    (hst : EntersWithin e lo (bars.map Bar.openTime) st) :
    runRows e strategy s₁ times tradeStart (pre ++ post) st =
      (runRows e strategy s₂ times tradeStart pre st >>=
        runRows e strategy s₁ times tradeStart post) := by
  induction pre generalizing st with
  | nil => rfl
  | cons row rest ih =>
    have hlast : stepBar e strategy s₁ times tradeStart (isLastOfDay row (rest ++ post)) row st =
        stepBar e strategy s₁ times tradeStart (isLastOfDay row rest) row st := by
      cases rest with
      | cons next rest => rfl
      | nil =>
        rcases hboundary with rfl | hdates
        · exact stepBar_swing _ _
        · cases post with
          | nil => rfl
          | cons next post =>
            have hne := hdates row (by simp) next (by simp)
            simp [isLastOfDay, Ne.symm hne]
    have hrow : row.bar ∈ bars := hrows row (by simp)
    simp only [List.cons_append, runRows, hlast, stepBar_congr hchecks hrow hst, bind_assoc]
    cases hmid : stepBar e strategy s₂ times tradeStart (isLastOfDay row rest) row st with
    | error _ => rfl
    | ok mid =>
      refine ih (fun r hr => hrows r (by simp [hr])) ?_ ?_
      · exact hboundary.imp id fun h r hr => h r (by simp [hr])
      · rcases stepBar_ok lo hmid with ⟨-, rfl⟩ | ⟨-, hadv, -⟩
        · exact hst
        · exact hst.advances hadv fun t ht => ht.1 ▸ List.mem_map_of_mem hrow

end Loop

/-! ## One chunk -/

/-- The close at the end of the data, which a run has when `force` says so. -/
def forcedExit (force : Bool) (x : TradeExit) : Bool := force = true ∧ x.reason = "FORCE_CLOSE"

/-- An exit by a signal, a rule or the end of a day at one of the bars. -/
def ruleExit (force : Bool) (bars : List Bar) (x : TradeExit) : Bool :=
  x.time ∈ bars.map Bar.openTime ∧ forcedExit force x = false

/-- The trades closed by such exits. -/
def closedByRules (force : Bool) (bars : List Bar) (trades : List RegisteredTrade) :
    List RegisteredTrade :=
  trades.filter fun t => t.exit.any (ruleExit force bars)

section Chunk

variable {e : Engine} {lo : ℕ} {tradeStart : Option Time} {force : Bool} {bars : List Bar}
  {session session₁ session₂ : Session S} {trades full pre : List RegisteredTrade}

def startState (e : Engine) (session : Session S) : EngineState :=
  { capital := e.initialCapital, exitState := session.exitState, drawn := session.drawn }

theorem startState_within (e : Engine) (session : Session S) (T : List Time) :
    EntersWithin e session.drawn T (startState e session) where
  numbered := ⟨le_rfl, by simp [startState]⟩
  entries := by simp [startState]

theorem runSingleChunk_ok
    (h : runSingleChunk e strategy tradeStart force bars session = .ok (trades, session₁)) :
    ∃ s frame times st, augmentIndicatorFrame strategy session.strategy bars = (s, .ok frame) ∧
      e.times = .ok times ∧
      runRows e strategy s times tradeStart frame.rows (startState e session) = .ok st ∧
      trades = (if force then forceClose e frame.bars st else st).trades ∧
      session₁.drawn = (if force then forceClose e frame.bars st else st).drawn := by
  simp only [runSingleChunk, bind_eq_ok, pure_eq_ok, Prod.mk.injEq] at h
  obtain ⟨frame, hframe, times, htimes, st, hst, rfl, rfl⟩ := h
  exact ⟨_, frame, times, st, Prod.ext rfl hframe, htimes, hst, rfl, rfl⟩

theorem forceClose_advances (Q : Trade → Prop) (st : EngineState) :
    Advances e lo (fun x => x.reason = "FORCE_CLOSE" ∧ x.time ∈ bars.map Bar.openTime) Q st
      (forceClose e bars st) := by
  unfold forceClose
  cases hlast : bars.getLast? with
  | none => exact .refl st
  | some bar =>
    exact closeAll_advances
      (fun _ => ⟨rfl, List.mem_map_of_mem (List.mem_of_getLast? hlast)⟩) st

theorem rowTimes_rows (frame : IndicatorFrame) :
    rowTimes frame.rows = frame.bars.map Bar.openTime := by
  rw [← bars_rows, List.map_map]
  rfl

theorem runSingleChunk_progress {P : TradeExit → Prop} {Q : Trade → Prop} {frame : IndicatorFrame}
    {st : EngineState} (hrows : Advances e session.drawn P Q (startState e session) st)
    (hP : ∀ x : TradeExit, x.time ∈ frame.bars.map Bar.openTime → P x) :
    Advances e session.drawn P Q (startState e session)
      (if force then forceClose e frame.bars st else st) := by
  cases force with
  | false => exact hrows
  | true => exact hrows.trans ((forceClose_advances _ st).mono (fun x hx => hP x hx.2) fun _ h => h)

theorem runSingleChunk_numbered
    (h : runSingleChunk e strategy tradeStart force bars session = .ok (trades, session₁)) :
    session.drawn ≤ session₁.drawn ∧ trades.map (·.id) =
      (List.range' session.drawn (session₁.drawn - session.drawn)).map e.uuid := by
  obtain ⟨s, frame, times, st, -, -, hrun, rfl, hdrawn⟩ := runSingleChunk_ok h
  have hrows : Advances e session.drawn (fun _ => True) (fun _ => True) (startState e session) st :=
    (runRows_advances hrun).mono (fun _ _ => trivial) fun _ _ => trivial
  obtain ⟨hnumbered, -⟩ := runSingleChunk_progress hrows
    (fun _ _ => trivial) (startState_within e session []).numbered
  exact ⟨hdrawn ▸ hnumbered.lo_le, hdrawn ▸ hnumbered.ids⟩

theorem runSingleChunk_exits (hcausal : CausalStrategy strategy)
    (h : runSingleChunk e strategy tradeStart force bars session = .ok (trades, session₁)) :
    ∀ t ∈ trades, ∀ x, t.exit = some x → x.time ∈ bars.map Bar.openTime := by
  obtain ⟨s, frame, times, st, haugment, -, hrun, rfl, -⟩ := runSingleChunk_ok h
  have hbars := hcausal.augment_bars haugment
  have hrows : Advances e session.drawn (·.time ∈ bars.map Bar.openTime) (fun _ => True)
      (startState e session) st := by
    refine (runRows_advances hrun).mono ?_ fun _ _ => trivial
    intro x hx
    rwa [rowTimes_rows, hbars] at hx
  obtain ⟨-, hprogress⟩ := runSingleChunk_progress hrows
    (fun x hx => by rwa [hbars] at hx) (startState_within e session []).numbered
  exact fun t ht x hx => (hprogress.of_nil t ht).2 x hx

theorem times_of_swing {times : Option DayTradeTimes} (h : e.times = .ok times)
    (hswing : e.dayTrade = false) : times = none := by
  unfold Engine.times at h
  rw [hswing] at h
  cases h
  rfl

theorem runSingleChunk_prefix (hcausal : CausalStrategy strategy)
    (hordered : Ordered Bar.openTime bars) (n : ℕ)
    (hboundary : e.dayTrade = true → ∀ b ∈ bars.take n, ∀ c ∈ bars.drop n, date b ≠ date c)
    (hfull : runSingleChunk e strategy tradeStart force bars session = .ok (full, session₁))
    (hpre : runSingleChunk e strategy tradeStart force (bars.take n) session =
      .ok (pre, session₂)) :
    closedByRules force (bars.take n) full = closedByRules force (bars.take n) pre := by
  obtain ⟨s₁, frame, times, st, haugment, htimes, hrun, rfl, -⟩ := runSingleChunk_ok hfull
  obtain ⟨s₂, frame', times', mid, haugment', htimes', hrun', rfl, -⟩ := runSingleChunk_ok hpre
  obtain ⟨rfl, hchecks⟩ := hcausal.augment haugment haugment'
  rw [htimes] at htimes'
  cases htimes'
  have hbars := hcausal.augment_bars haugment
  have hwithin := startState_within e session ((bars.take n).map Bar.openTime)
  have htake : (frame.rows.take n).map BarRow.bar = bars.take n := by
    rw [List.map_take, bars_rows, hbars]
  have hdrop : (frame.rows.drop n).map BarRow.bar = bars.drop n := by
    rw [List.map_drop, bars_rows, hbars]
  have hsplit : runRows e strategy s₁ times tradeStart (frame.rows.drop n) mid = .ok st := by
    rw [← List.take_append_drop n frame.rows, runRows_split hchecks ?_ ?_ hwithin] at hrun
    · rw [rows_cutFrame] at hrun'
      rw [hrun'] at hrun
      exact hrun
    · intro row hrow
      rw [← htake]
      exact List.mem_map_of_mem hrow
    · cases hday : e.dayTrade with
      | false => exact .inl (times_of_swing htimes hday)
      | true =>
        refine .inr fun r hr r' hr' => hboundary hday r.bar ?_ r'.bar ?_
        · rw [← htake]
          exact List.mem_map_of_mem hr
        · rw [← hdrop]
          exact List.mem_map_of_mem hr'
  -- both ends are reached from the state after the prefix
  have hnumbered : Numbered e session.drawn mid :=
    (runRows_advances hrun' hwithin.numbered).1
  have hlater : ∀ x : TradeExit, x.time ∈ (bars.drop n).map Bar.openTime →
      ruleExit force (bars.take n) x = false := by
    intro x hx
    obtain ⟨c, hc, hcx⟩ := List.mem_map.mp hx
    have hnot : x.time ∉ (bars.take n).map Bar.openTime := by
      intro hmem
      obtain ⟨b, hb, hbx⟩ := List.mem_map.mp hmem
      have hlt : b.openTime < c.openTime := by
        rw [← List.take_append_drop n bars] at hordered
        exact (List.pairwise_append.mp hordered).2.2 b hb c hc
      rw [hbx, hcx] at hlt
      exact absurd hlt (lt_irrefl _)
    unfold ruleExit
    rw [decide_eq_false_iff_not]
    exact fun h => hnot h.1
  have hforced : ∀ x : TradeExit, force = true ∧ x.reason = "FORCE_CLOSE" →
      ruleExit force (bars.take n) x = false := by
    rintro x ⟨rfl, hreason⟩
    simp [ruleExit, forcedExit, hreason]
  have hend : ∀ (bars : List Bar) (st : EngineState), Numbered e session.drawn st →
      Progress (fun x => force = true ∧ x.reason = "FORCE_CLOSE") (fun _ => True) st.trades
        (if force then forceClose e bars st else st).trades := by
    intro bars st hst
    cases force with
    | false => exact .refl _
    | true =>
      exact (forceClose_advances _ st hst).2.mono (fun x hx => ⟨rfl, hx.1⟩) fun _ h => h
  have hrest : Progress (fun x => x.time ∈ (bars.drop n).map Bar.openTime) (fun _ => True)
      mid.trades st.trades := by
    refine (runRows_advances hsplit hnumbered).2.mono (fun x hx => ?_) fun _ _ => trivial
    have htimes : rowTimes (frame.rows.drop n) = (bars.drop n).map Bar.openTime := by
      rw [← hdrop, List.map_map]
      rfl
    rwa [htimes] at hx
  have hst : Numbered e session.drawn st := (runRows_advances hsplit hnumbered).1
  unfold closedByRules
  rw [(hend _ st hst).filter_eq hforced, hrest.filter_eq hlater,
    (hend _ mid hnumbered).filter_eq hforced]

end Chunk

/-! ## Days -/

section Days

variable {bars : List Bar} {d : ℤ} {n : ℕ}

theorem mem_tradingDays : d ∈ tradingDays bars ↔ ∃ b ∈ bars, date b = d := by
  simp [tradingDays]

theorem tradingDays_ordered (bars : List Bar) : Ordered id (tradingDays bars) := by
  have hsorted : (tradingDays bars).Pairwise (· ≤ ·) := List.pairwise_insertionSort _ _
  have hnodup : (tradingDays bars).Nodup :=
    (List.perm_insertionSort _ _).nodup_iff.mpr (List.nodup_dedup _)
  exact hsorted.imp₂ (fun a b hle hne => lt_of_le_of_ne hle hne) hnodup

theorem date_le {a b : Bar} (h : a.openTime ≤ b.openTime) : date a ≤ date b :=
  Int.ediv_le_ediv (by decide) h

theorem date_le_of_split (hordered : Ordered Bar.openTime bars) {a b : Bar} (ha : a ∈ bars.take n)
    (hb : b ∈ bars.drop n) : date a ≤ date b := by
  rw [← List.take_append_drop n bars] at hordered
  exact date_le ((List.pairwise_append.mp hordered).2.2 a ha b hb).le

theorem tradingDays_split (hordered : Ordered Bar.openTime bars) (n : ℕ) :
    ∃ later, tradingDays bars = tradingDays (bars.take n) ++ later ∧
      ∀ d ∈ later, d ∉ tradingDays (bars.take n) := by
  refine ⟨(tradingDays bars).filter fun d => d ∉ tradingDays (bars.take n), ?_, ?_⟩
  · refine (tradingDays_ordered bars).eq_of_mem_iff ?_ ?_
    · refine List.pairwise_append.mpr ⟨tradingDays_ordered _,
        (tradingDays_ordered bars).filter _, fun d hd c hc => ?_⟩
      obtain ⟨hc, hnot⟩ := List.mem_filter.mp hc
      have hnot' : c ∉ tradingDays (bars.take n) := by simpa using hnot
      obtain ⟨a, ha, rfl⟩ := mem_tradingDays.mp hd
      obtain ⟨b, hb, rfl⟩ := mem_tradingDays.mp hc
      have hb' : b ∈ bars.drop n := by
        rw [← List.take_append_drop n bars, List.mem_append] at hb
        exact hb.resolve_left fun hb => hnot' (mem_tradingDays.mpr ⟨b, hb, rfl⟩)
      refine lt_of_le_of_ne (date_le_of_split hordered ha hb') fun heq => hnot' ?_
      exact mem_tradingDays.mpr ⟨a, ha, heq⟩
    · intro d
      simp only [List.mem_append, List.mem_filter]
      constructor
      · intro hd
        by_cases hmem : d ∈ tradingDays (bars.take n)
        · exact .inl hmem
        · exact .inr ⟨hd, by simpa using hmem⟩
      · rintro (hd | ⟨hd, -⟩)
        · obtain ⟨b, hb, rfl⟩ := mem_tradingDays.mp hd
          exact mem_tradingDays.mpr ⟨b, List.mem_of_mem_take hb, rfl⟩
        · exact hd
  · intro d hd
    simpa using (List.mem_filter.mp hd).2

def dayBars (bars : List Bar) (d : ℤ) : List Bar := bars.filter (fun b => date b = d)

theorem dailyChunks_eq (bars : List Bar) : dailyChunks bars = (tradingDays bars).map (dayBars bars) :=
  rfl

theorem dayBars_split (bars : List Bar) (n : ℕ) (d : ℤ) :
    dayBars bars d = dayBars (bars.take n) d ++ dayBars (bars.drop n) d := by
  unfold dayBars
  conv_lhs => rw [← List.take_append_drop n bars, List.filter_append]

theorem dayBars_drop_of_lt (hordered : Ordered Bar.openTime bars) {last : ℤ}
    (hlast : last ∈ tradingDays (bars.take n)) (hlt : d < last) : dayBars (bars.drop n) d = [] := by
  obtain ⟨a, ha, rfl⟩ := mem_tradingDays.mp hlast
  refine List.filter_eq_nil_iff.mpr fun b hb hdate => ?_
  have hle := date_le_of_split hordered ha hb
  simp only [decide_eq_true_eq] at hdate
  omega

/-- The chunks of a frame and of a prefix that is not empty: all but the last of the prefix are the
same, and the last is a prefix of the frame's. -/
theorem dailyChunks_split (hordered : Ordered Bar.openTime bars) (hne : bars.take n ≠ []) :
    ∃ (common : List (List Bar)) (last : ℤ) (later : List ℤ),
      dailyChunks (bars.take n) = common ++ [dayBars (bars.take n) last] ∧
      dailyChunks bars = common ++ dayBars bars last :: later.map (dayBars bars) ∧
      last ∈ tradingDays (bars.take n) ∧ ∀ d ∈ later, d ∉ tradingDays (bars.take n) := by
  obtain ⟨later, hdays, hlater⟩ := tradingDays_split hordered n
  have hord := tradingDays_ordered (bars.take n)
  rcases List.eq_nil_or_concat (tradingDays (bars.take n)) with hnil | ⟨init, last, hconcat⟩
  · obtain ⟨b, hb⟩ := List.exists_mem_of_ne_nil _ hne
    have hmem : date b ∈ tradingDays (bars.take n) := mem_tradingDays.mpr ⟨b, hb, rfl⟩
    rw [hnil] at hmem
    cases hmem
  · rw [List.concat_eq_append] at hconcat
    have hlast : last ∈ tradingDays (bars.take n) := by simp [hconcat]
    have hinit : ∀ d ∈ init, dayBars bars d = dayBars (bars.take n) d := by
      intro d hd
      rw [hconcat] at hord
      have hlt : d < last := (List.pairwise_append.mp hord).2.2 d hd last (by simp)
      rw [dayBars_split bars n, dayBars_drop_of_lt hordered hlast hlt, List.append_nil]
    refine ⟨init.map (dayBars (bars.take n)), last, later, ?_, ?_, hlast, hlater⟩
    · rw [dailyChunks_eq, hconcat, List.map_append]
      rfl
    · rw [dailyChunks_eq, hdays, hconcat, List.map_append, List.map_append,
        List.map_congr_left hinit]
      simp

end Days

/-! ## Whole runs -/

section Run

variable {e : Engine} {tradeStart : Option Time} {bars : List Bar}
  {acc acc' : List RegisteredTrade × Session S}

/-- The merged trades carry all identifiers drawn so far. -/
def Merged (e : Engine) (acc : List RegisteredTrade × Session S) : Prop :=
  acc.1.map (·.id) = (List.range acc.2.drawn).map e.uuid

/-- Registries with no identifier in common are joined. -/
theorem mergeTrades_eq {master other : List RegisteredTrade}
    (h : ((master ++ other).map (·.id)).Nodup) : mergeTrades master other = master ++ other := by
  induction other generalizing master with
  | nil => simp [mergeTrades]
  | cons t rest ih =>
    have hnew : master.any (·.id = t.id) = false := by
      rw [List.map_append, List.map_cons, List.nodup_append] at h
      rw [List.any_eq_false]
      intro u hu hid
      exact h.2.2 u.id (List.mem_map_of_mem hu) t.id (by simp) (by simpa using hid)
    have hstep : mergeTrades master (t :: rest) = mergeTrades (master ++ [t]) rest := by
      simp only [mergeTrades, List.foldl_cons, hnew]
      rfl
    rw [hstep, ih (by simpa using h)]
    simp

theorem runChunk_appends (hacc : Merged e acc)
    (h : runChunk e strategy tradeStart acc bars = .ok acc') :
    ∃ trades, runSingleChunk e strategy tradeStart true bars acc.2 = .ok (trades, acc'.2) ∧
      acc'.1 = acc.1 ++ trades ∧ Merged e acc' := by
  simp only [runChunk, bind_eq_ok, pure_eq_ok] at h
  obtain ⟨⟨trades, session⟩, hchunk, rfl⟩ := h
  obtain ⟨hle, hids⟩ := runSingleChunk_numbered hchunk
  have hall : (acc.1 ++ trades).map (·.id) = (List.range session.drawn).map e.uuid := by
    have hrange : List.range acc.2.drawn ++
        List.range' acc.2.drawn (session.drawn - acc.2.drawn) = List.range session.drawn := by
      rw [List.range_eq_range', List.range_eq_range']
      have happend := List.range'_append_1 (s := 0) (m := acc.2.drawn)
        (n := session.drawn - acc.2.drawn)
      rw [zero_add, Nat.add_sub_cancel' hle] at happend
      exact happend
    rw [List.map_append, hids, show List.map _ acc.1 = _ from hacc, ← List.map_append, hrange]
  have hnodup : ((acc.1 ++ trades).map (·.id)).Nodup := by
    rw [hall]
    exact List.Nodup.map e.uuid_injective List.nodup_range
  refine ⟨trades, hchunk, mergeTrades_eq hnodup, ?_⟩
  show List.map _ (mergeTrades _ _) = _
  rw [mergeTrades_eq hnodup]
  exact hall

theorem runChunk_ok (hcausal : CausalStrategy strategy) (hacc : Merged e acc)
    (h : runChunk e strategy tradeStart acc bars = .ok acc') :
    ∃ trades, runSingleChunk e strategy tradeStart true bars acc.2 = .ok (trades, acc'.2) ∧
      acc'.1 = acc.1 ++ trades ∧ Merged e acc' ∧
      ∀ t ∈ trades, ∀ x, t.exit = some x → x.time ∈ bars.map Bar.openTime := by
  obtain ⟨trades, hchunk, happend, hmerged⟩ := runChunk_appends hacc h
  exact ⟨trades, hchunk, happend, hmerged, runSingleChunk_exits hcausal hchunk⟩

theorem runChunks_merged (hcausal : CausalStrategy strategy) {chunks : List (List Bar)}
    (hacc : Merged e acc) (h : chunks.foldlM (runChunk e strategy tradeStart) acc = .ok acc') :
    Merged e acc' := by
  refine foldlM_invariant (Merged e) ?_ hacc h
  intro b chunk b' _ hb hstep
  obtain ⟨-, -, -, hmerged, -⟩ := runChunk_ok hcausal hb hstep
  exact hmerged

theorem runChunks_later (hcausal : CausalStrategy strategy) {chunks : List (List Bar)}
    {good : TradeExit → Bool}
    (hgood : ∀ chunk ∈ chunks, ∀ x : TradeExit, x.time ∈ chunk.map Bar.openTime → good x = false)
    (hacc : Merged e acc) (h : chunks.foldlM (runChunk e strategy tradeStart) acc = .ok acc') :
    acc'.1.filter (fun t => t.exit.any good) = acc.1.filter (fun t => t.exit.any good) := by
  have hboth : Merged e acc' ∧
      acc'.1.filter (fun t => t.exit.any good) = acc.1.filter (fun t => t.exit.any good) := by
    refine foldlM_invariant (fun b => Merged e b ∧
      b.1.filter (fun t => t.exit.any good) = acc.1.filter (fun t => t.exit.any good)) ?_
      ⟨hacc, rfl⟩ h
    rintro b chunk b' hchunk ⟨hb, hsame⟩ hstep
    obtain ⟨trades, -, happend, hmerged, hexits⟩ := runChunk_ok hcausal hb hstep
    refine ⟨hmerged, ?_⟩
    have hnone : trades.filter (fun t => t.exit.any good) = [] := by
      refine List.filter_eq_nil_iff.mpr fun t ht hany => ?_
      obtain ⟨x, hx, hgoodx⟩ := Option.any_eq_true _ _ |>.mp hany
      rw [hgood chunk hchunk x (hexits t ht x hx)] at hgoodx
      cases hgoodx
    rw [happend, List.filter_append, hnone, List.append_nil, hsame]
  exact hboth.2

theorem runSingleChunk_fills (hcausal : CausalStrategy strategy) {force : Bool}
    {session session₁ : Session S} {trades : List RegisteredTrade}
    (hordered : Ordered Bar.openTime bars)
    (h : runSingleChunk e strategy tradeStart force bars session = .ok (trades, session₁)) :
    ∃ s' frame, augmentIndicatorFrame strategy session.strategy bars = (s', .ok frame) ∧
      frame.bars = bars ∧ ∀ t ∈ trades, FillsAtNextOpen strategy s' frame.rows t.toTrade := by
  obtain ⟨s', frame, times, st, haugment, -, hrun, rfl, -⟩ := runSingleChunk_ok h
  have hbars := hcausal.augment_bars haugment
  refine ⟨s', frame, haugment, hbars, fun t ht => ?_⟩
  have hrows : frame.rows.Pairwise (fun a b => a.bar.openTime ≤ b.bar.openTime) := by
    have hmap : (frame.rows.map BarRow.bar).Pairwise (fun a b => a.openTime < b.openTime) := by
      rw [bars_rows, hbars]
      exact hordered
    exact (List.pairwise_map.mp hmap).imp le_of_lt
  have hfills : Advances e session.drawn (fun _ => True) (FillsAtNextOpen strategy s' frame.rows)
      (startState e session) st := by
    show Advances e session.drawn (fun _ => True)
      (FillsAtNextOpen strategy s' ([] ++ frame.rows)) (startState e session) st
    exact runRows_fills hrows (.inl rfl) hrun
  have hall : Advances e session.drawn (fun _ => True) (FillsAtNextOpen strategy s' frame.rows)
      (startState e session) (if force then forceClose e frame.bars st else st) := by
    cases force with
    | false => exact hfills
    | true => exact hfills.trans ((forceClose_advances _ st).mono (fun _ _ => trivial) fun _ h => h)
  obtain ⟨-, hprogress⟩ := hall (startState_within e session []).numbered
  exact (hprogress.of_nil t ht).1

/-- The parts of a frame that one loop runs over. -/
def chunksOf (mode : ParallelMode) (bars : List Bar) : List (List Bar) :=
  match mode with
  | .sequential => [bars]
  | .dayTrade => dailyChunks bars

/-- The trade was opened at the open of the bar after the bar whose entry check gave its signal,
two bars in a row of one chunk of the frame. -/
def EntersAfterSignal (strategy : TradingStrategy S) (mode : ParallelMode) (bars : List Bar)
    (t : Trade) : Prop :=
  ∃ chunk ∈ chunksOf mode bars, chunk <:+: bars ∧ ∃ s s' frame,
    augmentIndicatorFrame strategy s chunk = (s', .ok frame) ∧ frame.bars = chunk ∧
    FillsAtNextOpen strategy s' frame.rows t

theorem dayBars_infix (hordered : Ordered Bar.openTime bars) (d : ℤ) : dayBars bars d <:+: bars := by
  refine ⟨bars.filter (fun b => date b < d), bars.filter (fun b => d < date b), ?_⟩
  unfold dayBars
  induction bars with
  | nil => rfl
  | cons b rest ih =>
    obtain ⟨hb, hrest⟩ := List.pairwise_cons.mp hordered
    have hle : ∀ c ∈ rest, date b ≤ date c := fun c hc => date_le (hb c hc).le
    have hempty : ∀ p : Bar → Bool, (∀ c ∈ rest, p c = false) → rest.filter p = [] :=
      fun p hp => List.filter_eq_nil_iff.mpr fun c hc => by simp [hp c hc]
    specialize ih hrest
    rcases lt_trichotomy (date b) d with hlt | heq | hgt
    · rw [List.filter_cons_of_pos (by simpa using hlt), List.filter_cons_of_neg (by simp [hlt.ne]),
        List.filter_cons_of_neg (by simp [hlt.le]), List.cons_append, List.cons_append, ih]
    · have hnone := hempty (fun c => date c < d) fun c hc => by
        simp [heq ▸ hle c hc]
      rw [hnone, List.nil_append] at ih
      rw [List.filter_cons_of_neg (by simp [heq]), List.filter_cons_of_pos (by simp [heq]),
        List.filter_cons_of_neg (by simp [heq]), hnone, List.nil_append, List.cons_append, ih]
    · have hbefore := hempty (fun c => date c < d) fun c hc => by
        simp [(hgt.le.trans (hle c hc))]
      have hsame := hempty (fun c => date c = d) fun c hc => by
        simp [(hgt.trans_le (hle c hc)).ne']
      rw [hbefore, hsame, List.nil_append] at ih
      rw [List.filter_cons_of_neg (by simp [hgt.le]), List.filter_cons_of_neg (by simp [hgt.ne']),
        List.filter_cons_of_pos (by simpa using hgt), hbefore, hsame, List.nil_append,
        List.nil_append]
      rw [List.nil_append] at ih
      rw [ih]

theorem dayBars_ordered (hordered : Ordered Bar.openTime bars) (d : ℤ) :
    Ordered Bar.openTime (dayBars bars d) := hordered.filter _

theorem run_trades (hcausal : CausalStrategy strategy) (hordered : Ordered Bar.openTime bars)
    {mode : ParallelMode} {s : S} {trades : List RegisteredTrade}
    (h : run e strategy mode tradeStart s bars = .ok trades) :
    ∀ t ∈ trades, EntersAfterSignal strategy mode bars t.toTrade ∧
      ∀ x, t.exit = some x → x.time ∈ bars.map Bar.openTime := by
  unfold run at h
  split at h
  · cases h
    simp
  · cases mode with
    | sequential =>
      simp only [bind_eq_ok, pure_eq_ok] at h
      obtain ⟨⟨trades, session⟩, hchunk, rfl⟩ := h
      obtain ⟨s', frame, haugment, hbars, hfills⟩ := runSingleChunk_fills hcausal hordered hchunk
      intro t ht
      exact ⟨⟨bars, by simp [chunksOf], List.infix_rfl, _, s', frame, haugment, hbars, hfills t ht⟩,
        runSingleChunk_exits hcausal hchunk t ht⟩
    | dayTrade =>
      simp only [bind_eq_ok, pure_eq_ok] at h
      obtain ⟨acc, hfold, rfl⟩ := h
      have hinv : Merged e acc ∧ ∀ t ∈ acc.1,
          EntersAfterSignal strategy .dayTrade bars t.toTrade ∧
          ∀ x, t.exit = some x → x.time ∈ bars.map Bar.openTime := by
        refine foldlM_invariant (fun b => Merged e b ∧ ∀ t ∈ b.1,
          EntersAfterSignal strategy .dayTrade bars t.toTrade ∧
          ∀ x, t.exit = some x → x.time ∈ bars.map Bar.openTime) ?_ ⟨by simp [Merged], by simp⟩ hfold
        rintro b chunk b' hmem ⟨hb, hold⟩ hstep
        obtain ⟨trades, hchunk, happend, hmerged, hexits⟩ := runChunk_ok hcausal hb hstep
        obtain ⟨d, -, rfl⟩ := List.mem_map.mp (dailyChunks_eq bars ▸ hmem)
        obtain ⟨s', frame, haugment, hbars, hfills⟩ :=
          runSingleChunk_fills hcausal (dayBars_ordered hordered d) hchunk
        refine ⟨hmerged, fun t ht => ?_⟩
        rw [happend] at ht
        rcases List.mem_append.mp ht with ht | ht
        · exact hold t ht
        · refine ⟨⟨_, hmem, dayBars_infix hordered d, _, s', frame, haugment, hbars, hfills t ht⟩, ?_⟩
          intro x hx
          obtain ⟨bar, hbar, htime⟩ := List.mem_map.mp (hexits t ht x hx)
          exact List.mem_map.mpr ⟨bar, List.mem_of_mem_filter hbar, htime⟩
      exact hinv.2

theorem mem_dayBars_date {d : ℤ} {time : Time} (h : time ∈ (dayBars bars d).map Bar.openTime) :
    time / 86400000000 = d := by
  obtain ⟨b, hb, rfl⟩ := List.mem_map.mp h
  exact of_decide_eq_true (List.mem_filter.mp hb).2

theorem closedByRules_day {force : Bool} (d : ℤ) {trades : List RegisteredTrade}
    (h : ∀ t ∈ trades, ∀ x, t.exit = some x → x.time / 86400000000 = d) :
    closedByRules force (dayBars bars d) trades = closedByRules force bars trades := by
  refine List.filter_congr fun t ht => ?_
  cases hexit : t.exit with
  | none => rfl
  | some x =>
    have hday := h t ht x hexit
    have htimes : x.time ∈ (dayBars bars d).map Bar.openTime ↔ x.time ∈ bars.map Bar.openTime := by
      constructor
      · intro hmem
        obtain ⟨b, hb, hbx⟩ := List.mem_map.mp hmem
        exact List.mem_map.mpr ⟨b, List.mem_of_mem_filter hb, hbx⟩
      · intro hmem
        obtain ⟨b, hb, hbx⟩ := List.mem_map.mp hmem
        refine List.mem_map.mpr ⟨b, List.mem_filter.mpr ⟨hb, ?_⟩, hbx⟩
        simpa [date, hbx] using hday
    simp only [ruleExit, Option.any_some, htimes]

/-- Runs by day: the days before the last one of the prefix are the same, the last day is cut, and
later days close nothing at its bars. -/
theorem runDays_prefix (hcausal : CausalStrategy strategy) (hordered : Ordered Bar.openTime bars)
    (n : ℕ)
    (hboundary : e.dayTrade = true → ∀ b ∈ bars.take n, ∀ c ∈ bars.drop n, date b ≠ date c)
    (hne : bars.take n ≠ []) {s : S} {acc₁ acc₂ : List RegisteredTrade × Session S}
    (hfull : (dailyChunks bars).foldlM (runChunk e strategy tradeStart) ([], { strategy := s }) =
      .ok acc₁)
    (hpre : (dailyChunks (bars.take n)).foldlM (runChunk e strategy tradeStart)
      ([], { strategy := s }) = .ok acc₂) :
    closedByRules true (bars.take n) acc₁.1 = closedByRules true (bars.take n) acc₂.1 := by
  obtain ⟨common, last, later, hpreChunks, hchunks, hlast, hlater⟩ :=
    dailyChunks_split hordered hne
  rw [hpreChunks, List.foldlM_append, bind_eq_ok] at hpre
  rw [hchunks, List.foldlM_append, bind_eq_ok] at hfull
  obtain ⟨acc, hcommon, hpre⟩ := hpre
  obtain ⟨acc', hcommon', hfull⟩ := hfull
  rw [hcommon] at hcommon'
  cases hcommon'
  simp only [List.foldlM_cons, List.foldlM_nil, bind_eq_ok, pure_eq_ok] at hpre hfull
  obtain ⟨_, hpreDay, rfl⟩ := hpre
  obtain ⟨accDay, hday, hrest⟩ := hfull
  have hacc : Merged e acc := runChunks_merged hcausal (by simp [Merged]) hcommon
  obtain ⟨preTrades, hpreChunk, hpreAppend, -, hpreExits⟩ := runChunk_ok hcausal hacc hpreDay
  obtain ⟨dayTrades, hdayChunk, hdayAppend, hmerged, hdayExits⟩ := runChunk_ok hcausal hacc hday
  have hcut : (dayBars bars last).take (dayBars (bars.take n) last).length =
      dayBars (bars.take n) last := by
    rw [dayBars_split bars n, List.take_left]
  have hdrop : (dayBars bars last).drop (dayBars (bars.take n) last).length =
      dayBars (bars.drop n) last := by
    rw [dayBars_split bars n, List.drop_left]
  have hsameDay : closedByRules true (dayBars (bars.take n) last) dayTrades =
      closedByRules true (dayBars (bars.take n) last) preTrades := by
    rw [← hcut] at hpreChunk
    rw [← hcut]
    refine runSingleChunk_prefix hcausal (dayBars_ordered hordered last) _ ?_ hdayChunk hpreChunk
    intro hday b hb c hc
    rw [hcut] at hb
    rw [hdrop] at hc
    exact hboundary hday b (List.mem_of_mem_filter hb) c (List.mem_of_mem_filter hc)
  rw [closedByRules_day last fun t ht x hx => mem_dayBars_date (hdayExits t ht x hx),
    closedByRules_day last fun t ht x hx => mem_dayBars_date (hpreExits t ht x hx)] at hsameDay
  have hlaterDays : closedByRules true (bars.take n) acc₁.1 =
      closedByRules true (bars.take n) accDay.1 := by
    refine runChunks_later hcausal ?_ hmerged hrest
    intro chunk hchunk x hx
    obtain ⟨d, hd, rfl⟩ := List.mem_map.mp hchunk
    unfold ruleExit
    rw [decide_eq_false_iff_not]
    rintro ⟨hmem, -⟩
    obtain ⟨b, hb, hbx⟩ := List.mem_map.mp hmem
    refine hlater d hd (mem_tradingDays.mpr ⟨b, hb, ?_⟩)
    rw [← mem_dayBars_date hx, ← hbx]
    rfl
  unfold closedByRules at hlaterDays hsameDay ⊢
  rw [hlaterDays, hdayAppend, hpreAppend, List.filter_append, List.filter_append, hsameDay]

/-- The run over the whole frame and the run over a prefix close the same trades by signals and
rules within the prefix, and every entry fills at the open of the bar after its signal. Under day
trading the prefix ends with a day. -/
theorem prefix_stability (hcausal : CausalStrategy strategy) (mode : ParallelMode) (s : S)
    (hordered : Ordered Bar.openTime bars) (n : ℕ)
    (hboundary : e.dayTrade = true → ∀ b ∈ bars.take n, ∀ c ∈ bars.drop n, date b ≠ date c)
    {full pre : List RegisteredTrade}
    (hfull : run e strategy mode tradeStart s bars = .ok full)
    (hpre : run e strategy mode tradeStart s (bars.take n) = .ok pre) :
    closedByRules (mode = .dayTrade) (bars.take n) full =
      pre.filter (fun t => t.exit.any fun x => !forcedExit (mode = .dayTrade) x) ∧
    ∀ t ∈ full, EntersAfterSignal strategy mode bars t.toTrade := by
  refine ⟨?_, fun t ht => (run_trades hcausal hordered hfull t ht).1⟩
  have hwithin : closedByRules (mode = .dayTrade) (bars.take n) pre =
      pre.filter (fun t => t.exit.any fun x => !forcedExit (mode = .dayTrade) x) := by
    refine List.filter_congr fun t ht => ?_
    cases hexit : t.exit with
    | none => rfl
    | some x =>
      have htime := (run_trades hcausal (hordered.sublist (List.take_sublist n bars)) hpre t ht).2 x
        hexit
      show ruleExit _ _ x = !forcedExit _ x
      unfold ruleExit
      cases forcedExit (mode = .dayTrade) x with
      | false => exact decide_eq_true ⟨htime, rfl⟩
      | true => exact decide_eq_false fun h => by cases h.2
  rw [← hwithin]
  by_cases hnil : bars.take n = []
  · rw [hnil] at hpre ⊢
    cases hpre
    refine List.filter_eq_nil_iff.mpr fun t _ hany => ?_
    obtain ⟨x, -, hx⟩ := Option.any_eq_true _ _ |>.mp hany
    cases (of_decide_eq_true hx).1
  · have hbars : bars ≠ [] := by
      rintro rfl
      simp at hnil
    unfold run at hfull hpre
    rw [if_neg hbars] at hfull
    rw [if_neg hnil] at hpre
    cases mode with
    | sequential =>
      simp only [bind_eq_ok, pure_eq_ok] at hfull hpre
      obtain ⟨⟨full, session₁⟩, hfull, rfl⟩ := hfull
      obtain ⟨⟨pre, session₂⟩, hpre, rfl⟩ := hpre
      exact runSingleChunk_prefix hcausal hordered n hboundary hfull hpre
    | dayTrade =>
      simp only [bind_eq_ok, pure_eq_ok] at hfull hpre
      obtain ⟨acc₁, hfull, rfl⟩ := hfull
      obtain ⟨acc₂, hpre, rfl⟩ := hpre
      exact runDays_prefix hcausal hordered n hboundary hnil hfull hpre

end Run

/-! ## A causal strategy -/

/-- Buys after a rising bar and closes after a falling one. -/
def momentumStrategy : TradingStrategy Unit where
  computeIndicators s bars := (s, .ok { bars })
  checkEntryConditions _ row :=
    .ok (if row.bar.open_ < row.bar.close then [{ symbol := "WIN", action := .buy }] else [])
  checkExitConditions _ row trades :=
    .ok (if row.bar.close < row.bar.open_ then
      trades.map fun t => { symbol := t.symbol, action := .close } else [])
  sizeSignal _ _ := .ok (some 1)

theorem momentumStrategy_causal : CausalStrategy momentumStrategy where
  bars h := by
    cases h
    rfl
  cut hfull hcut := by
    cases hfull
    cases hcut
    exact ⟨rfl, fun _ _ => rfl, fun _ _ _ _ => rfl⟩

def minuteBar (i : ℕ) (open_ close : ℚ) : Bar :=
  { openTime := 60000000 * i, open_, high := max open_ close, low := min open_ close, close }

def momentumBars : List Bar :=
  [minuteBar 0 10 11, minuteBar 1 12 11, minuteBar 2 13 14, minuteBar 3 15 14, minuteBar 4 16 17]

/-- The first trade is closed within three bars; the second is open at their end. -/
theorem momentum_closes_within_prefix :
    ∃ full pre, run unitEngine momentumStrategy .sequential none () momentumBars = .ok full ∧
      run unitEngine momentumStrategy .sequential none () (momentumBars.take 3) = .ok pre ∧
      closedByRules false (momentumBars.take 3) full =
        pre.filter (fun t => t.exit.any fun x => !forcedExit false x) ∧
      (closedByRules false (momentumBars.take 3) full).length = 1 ∧ full.length = 2 := by
  obtain ⟨full, hfull⟩ := exists_ok_of_isSome
    (show (run unitEngine momentumStrategy .sequential none () momentumBars).toOption.isSome by
      decide +kernel)
  obtain ⟨pre, hpre⟩ := exists_ok_of_isSome
    (show (run unitEngine momentumStrategy .sequential none ()
      (momentumBars.take 3)).toOption.isSome by decide +kernel)
  have hordered : Ordered Bar.openTime momentumBars := by
    unfold Ordered
    decide +kernel
  have hstable := (prefix_stability momentumStrategy_causal .sequential () hordered 3
    (fun h => by cases h) hfull hpre).1
  refine ⟨full, pre, hfull, hpre, hstable, ?_⟩
  have hcounts : (run unitEngine momentumStrategy .sequential none () momentumBars).toOption.map
      (fun trades => ((closedByRules false (momentumBars.take 3) trades).length, trades.length)) =
      some (1, 2) := by
    decide +kernel
  rw [hfull] at hcounts
  exact ⟨congrArg (fun p => (p.getD (0, 0)).1) hcounts, congrArg (fun p => (p.getD (0, 0)).2) hcounts⟩

end QBackend.Backtesting
