import QBackend.EnginePrefix

/-!
# Day trading holds nothing overnight

With day trading on, the loop of the engine closes every open trade from the close time on and at
the end of the last bar of a day, and drops what is queued. The invariant: after every bar of a run
the registry is flat and the queues are empty, or the next bar is of the same day as the bar before
it, and so is every open trade.
-/

namespace QBackend.Backtesting

open Execution FallibleSteps OrderedSeries

/-! ## The points of a loop -/

section Loop

variable {S : Type} (e : Engine) (strategy : TradingStrategy S) (s : S)
  (times : Option DayTradeTimes) (tradeStart : Option Time)

/-- The loop over `rows` has the rows `done` behind it, the rows `rest` before it and is in the
state. -/
inductive Visits (rows : List BarRow) (st₀ : EngineState) :
    List BarRow → List BarRow → EngineState → Prop
  | start : Visits rows st₀ [] rows st₀
  | bar {done row rest st st'} (before : Visits rows st₀ done (row :: rest) st)
      (step : stepBar e strategy s times tradeStart (isLastOfDay row rest) row st = .ok st') :
      Visits rows st₀ (done ++ [row]) rest st'

variable {e strategy s times tradeStart} {rows done rest : List BarRow} {st₀ st st' : EngineState}

theorem Visits.append (h : Visits e strategy s times tradeStart rows st₀ done rest st) :
    done ++ rest = rows := by
  induction h with
  | start => rfl
  | bar before step ih => rw [List.append_assoc, List.singleton_append, ih]

/-- A run that returns reaches its result at the end of the rows. -/
theorem Visits.runRows (h : Visits e strategy s times tradeStart rows st₀ done rest st)
    (hrun : runRows e strategy s times tradeStart rest st = .ok st') :
    Visits e strategy s times tradeStart rows st₀ (done ++ rest) [] st' := by
  induction rest generalizing done st with
  | nil =>
    cases hrun
    rw [List.append_nil]
    exact h
  | cons row rest ih =>
    simp only [Backtesting.runRows, bind_eq_ok] at hrun
    obtain ⟨mid, hmid, hrest⟩ := hrun
    rw [List.append_cons]
    exact ih (h.bar hmid) hrest

end Loop

/-! ## Days -/

def dayOf (time : Time) : ℤ := time / 86400000000

def clockOf (time : Time) : Time := time % 86400000000

/-- Nothing is open and nothing is queued. -/
structure Flat (st : EngineState) : Prop where
  trades : ∀ t ∈ st.trades, t.isOpen = false
  exits : st.pendingExits = []
  entries : st.pendingEntries = []

section Step

variable {S : Type} {e : Engine} {strategy : TradingStrategy S} {s : S} {times : DayTradeTimes}
  {tradeStart : Option Time} {lastOfDay : Bool} {row : BarRow} {lo : ℕ} {st st' : EngineState}

theorem closeAll_closed {time : Time} {price : ℚ} {reason : String} (h : st.Distinct) :
    ∀ t ∈ (st.closeAll e time price reason).trades, t.isOpen = false := by
  intro t ht
  rw [EngineState.closeAll, EngineState.closeTrades_trades h] at ht
  obtain ⟨u, hu, rfl⟩ := List.mem_map.mp ht
  unfold closedIf
  split
  · rfl
  next hkept =>
    by_contra hopen
    rw [Bool.not_eq_false] at hopen
    refine hkept ⟨hopen, List.mem_map_of_mem (f := Trade.id) (a := u.toTrade) ?_⟩
    exact List.mem_map_of_mem (List.mem_filter.mpr ⟨hu, hopen⟩)

theorem flat_clearPending (h : ∀ t ∈ st.trades, t.isOpen = false) : Flat st.clearPending :=
  ⟨h, rfl, rfl⟩

theorem clearPending_advances {P : TradeExit → Prop} {Q : Trade → Prop} (st : EngineState) :
    Advances e lo P Q st st.clearPending :=
  .of_eq rfl rfl

/-- What day trading queues comes from the bar, within the entry window. -/
def QueuedAt (strategy : TradingStrategy S) (s : S) (times : DayTradeTimes) (row : BarRow)
    (st : EngineState) : Prop :=
  st.pendingEntries = [] ∨ (strategy.checkEntryConditions s row = .ok st.pendingEntries ∧
    times.start ≤ timeOfDay row.bar ∧ timeOfDay row.bar ≤ times.stop)

theorem queueSignals_window {allowed : Prop} [Decidable allowed]
    (hallowed : allowed → times.start ≤ timeOfDay row.bar ∧ timeOfDay row.bar ≤ times.stop)
    (h : queueSignals strategy s row allowed st = .ok st') :
    QueuedAt strategy s times row st' := by
  simp only [queueSignals, bind_eq_ok, pure_eq_ok] at h
  obtain ⟨exits, -, entries, hentries, rfl⟩ := h
  by_cases hwindow : allowed
  · rw [if_pos (by simpa using hwindow)] at hentries
    exact .inr ⟨hentries, hallowed hwindow⟩
  · rw [if_neg (by simpa using hwindow)] at hentries
    cases hentries
    exact .inl rfl

/-- A bar of a day-trading run that is not skipped exits at its own time, enters before the close
time only, and ends flat or on a bar that is not the last of its day. -/
theorem stepBar_dayTrade (hnumbered : Numbered e lo st)
    (h : stepBar e strategy s (some times) tradeStart lastOfDay row st = .ok st')
    (htraded : tradeStart.any (row.bar.openTime < ·) = false) :
    Numbered e lo st' ∧
    Progress (fun x => x.time = row.bar.openTime)
      (fun t => OpenedBy row st.pendingEntries t ∧ timeOfDay row.bar < times.close)
      st.trades st'.trades ∧
    (Flat st' ∨ (lastOfDay = false ∧ QueuedAt strategy s times row st')) := by
  unfold stepBar at h
  dsimp only at h
  rw [if_neg (by rw [htraded]; exact Bool.false_ne_true)] at h
  split at h
  · next hclose =>
    cases h
    have hclosed : Advances e lo (fun x => x.time = row.bar.openTime)
        (fun t => OpenedBy row st.pendingEntries t ∧ timeOfDay row.bar < times.close) st
        (st.closeAll e row.bar.openTime row.bar.open_ "END_OF_DAY") :=
      closeAll_advances (fun _ => rfl) st
    obtain ⟨hnum, hprogress⟩ := (hclosed.trans (clearPending_advances _)) hnumbered
    exact ⟨hnum, hprogress, .inl (flat_clearPending (closeAll_closed hnumbered.distinct))⟩
  · next hopen =>
    have hexecuted : Advances e lo (fun x => x.time = row.bar.openTime)
        (fun t => OpenedBy row st.pendingEntries t ∧ timeOfDay row.bar < times.close) st
        ((st.executeExits e row.bar.openTime row.bar.open_).executeEntries e row.bar.openTime
          row.bar.open_ row) := by
      have hexits : Advances e lo (fun x => x.time = row.bar.openTime)
          (fun t => OpenedBy row st.pendingEntries t ∧ timeOfDay row.bar < times.close) st
          (st.executeExits e row.bar.openTime row.bar.open_) :=
        executeExits_advances (fun _ hx => hx) st
      refine hexits.trans ?_
      have hentries : Advances e lo (fun x => x.time = row.bar.openTime) _
          (st.executeExits e row.bar.openTime row.bar.open_)
          ((st.executeExits e row.bar.openTime row.bar.open_).executeEntries e row.bar.openTime
            row.bar.open_ row) := executeEntries_advances _
      rw [EngineState.executeExits_pendingEntries] at hentries
      exact hentries.mono (fun _ hx => hx) fun t ht => ⟨ht, not_le.mp hopen⟩
    split at h
    · cases h
      obtain ⟨hnum, -⟩ := hexecuted hnumbered
      have hclosed := hexecuted.trans (closeAll_advances (fun _ => rfl) _ : Advances e lo _ _ _
        (EngineState.closeAll e row.bar.openTime row.bar.close "END_OF_DAY" _))
      obtain ⟨hnum', hprogress⟩ := (hclosed.trans (clearPending_advances _)) hnumbered
      exact ⟨hnum', hprogress, .inl (flat_clearPending (closeAll_closed hnum.distinct))⟩
    · next hlast =>
      obtain ⟨htrades, hdrawn, -⟩ := queueSignals_ok h
      obtain ⟨hnum, hprogress⟩ := (hexecuted.trans (.of_eq htrades hdrawn)) hnumbered
      exact ⟨hnum, hprogress, .inr ⟨by simpa using hlast, queueSignals_window (fun h => h) h⟩⟩

end Step

/-! ## The invariant -/

section Invariant

variable {S : Type} {e : Engine} {strategy : TradingStrategy S} {s : S} {times : DayTradeTimes}
  {tradeStart : Option Time} {rows done rest : List BarRow} {lo : ℕ} {st₀ st : EngineState}

/-- The entry was signalled on an earlier bar of the day, inside the entry window, and filled before
the close time. -/
structure IntradayEntry (strategy : TradingStrategy S) (s : S) (times : DayTradeTimes)
    (rows : List BarRow) (t : Trade) : Prop where
  before_close : clockOf t.entryTime < times.close
  signalled : ∃ row ∈ rows, ∃ signals, strategy.checkEntryConditions s row = .ok signals ∧
    row.bar.openTime < t.entryTime ∧ date row.bar = dayOf t.entryTime ∧
    times.start ≤ timeOfDay row.bar ∧ timeOfDay row.bar ≤ times.stop ∧
    ∃ signal ∈ signals, t.symbol = signal.symbol ∧
      t.action = if signal.action = .buy then .buy else .sell

/-- The next bar is of the same day as the last one, as are the open trades; the last one was traded
and what is queued comes from it. -/
structure Carried (strategy : TradingStrategy S) (s : S) (times : DayTradeTimes)
    (tradeStart : Option Time) (done rest : List BarRow) (st : EngineState) : Prop where
  days : ∃ earlier last next after, done = earlier ++ [last] ∧ rest = next :: after ∧
    date next.bar = date last.bar ∧ tradeStart.any (last.bar.openTime < ·) = false ∧
    (∀ t ∈ st.trades, t.isOpen = true → dayOf t.entryTime = date last.bar) ∧
    QueuedAt strategy s times last st

structure DayInvariant (e : Engine) (lo : ℕ) (strategy : TradingStrategy S) (s : S)
    (times : DayTradeTimes) (tradeStart : Option Time) (rows done rest : List BarRow)
    (st : EngineState) : Prop where
  numbered : Numbered e lo st
  entries : ∀ t ∈ st.trades, IntradayEntry strategy s times rows t.toTrade
  exits : ∀ t ∈ st.trades, ∀ x, t.exit = some x → dayOf x.time = dayOf t.entryTime
  carried : Flat st ∨ Carried strategy s times tradeStart done rest st

/-- Before a bar that is traded the open trades are of its day. -/
theorem DayInvariant.open_today {row : BarRow}
    (h : DayInvariant e lo strategy s times tradeStart rows done (row :: rest) st) :
    ∀ t ∈ st.trades, t.isOpen = true → dayOf t.entryTime = date row.bar := by
  intro t ht hopen
  obtain hflat | ⟨earlier, last, next, after, -, hrest, hday, -, htoday, -⟩ := h.carried
  · rw [hflat.trades t ht] at hopen
    cases hopen
  · cases hrest
    rw [htoday t ht hopen, hday]

theorem DayInvariant.entry {row : BarRow} {t : Trade}
    (h : DayInvariant e lo strategy s times tradeStart rows done (row :: rest) st)
    (hrows : done ++ row :: rest = rows)
    (hordered : Ordered (fun r : BarRow => r.bar.openTime) rows)
    (hopened : OpenedBy row st.pendingEntries t) (hclose : timeOfDay row.bar < times.close) :
    IntradayEntry strategy s times rows t := by
  obtain ⟨htime, -, signal, hmem, hsignal⟩ := hopened
  refine ⟨by rw [htime]; exact hclose, ?_⟩
  obtain hflat | ⟨earlier, last, next, after, rfl, hrest, hday, -, -, hqueued⟩ := h.carried
  · rw [hflat.entries] at hmem
    cases hmem
  · cases hrest
    have hlast : last ∈ earlier ++ [last] := by simp
    have hlt : last.bar.openTime < row.bar.openTime := by
      rw [← hrows] at hordered
      exact (List.pairwise_append.mp hordered).2.2 last hlast row (by simp)
    obtain hnone | ⟨hcheck, hstart, hstop⟩ := hqueued
    · rw [hnone] at hmem
      cases hmem
    · refine ⟨last, ?_, _, hcheck, by rw [htime]; exact hlt, ?_, hstart, hstop, signal, hmem,
        hsignal⟩
      · rw [← hrows]
        exact List.mem_append_left _ hlast
      · rw [htime]
        exact hday.symm

theorem DayInvariant.flat_of_skip {row : BarRow}
    (h : DayInvariant e lo strategy s times tradeStart rows done (row :: rest) st)
    (hrows : done ++ row :: rest = rows)
    (hordered : Ordered (fun r : BarRow => r.bar.openTime) rows)
    (hskip : tradeStart.any (row.bar.openTime < ·) = true) : Flat st := by
  obtain hflat | ⟨earlier, last, next, after, rfl, hrest, -, htraded, -⟩ := h.carried
  · exact hflat
  · obtain ⟨start, hstart, hlt⟩ := Option.any_eq_true _ _ |>.mp hskip
    have hle : last.bar.openTime < row.bar.openTime := by
      rw [← hrows] at hordered
      exact (List.pairwise_append.mp hordered).2.2 last (by simp) row (by simp)
    have hlt' : last.bar.openTime < start := hle.trans (by simpa using hlt)
    rw [hstart] at htraded
    simp [hlt'] at htraded

theorem dayInvariant_of_visits (hordered : Ordered (fun r : BarRow => r.bar.openTime) rows)
    (hstart : Numbered e lo st₀) (hempty : st₀.trades = []) (hflat : Flat st₀)
    (h : Visits e strategy s (some times) tradeStart rows st₀ done rest st) :
    DayInvariant e lo strategy s times tradeStart rows done rest st := by
  induction h with
  | start => exact ⟨hstart, by simp [hempty], by simp [hempty], .inl hflat⟩
  | @bar done row rest st st' before step ih =>
    have hrows : done ++ row :: rest = rows := before.append
    cases htraded : tradeStart.any (row.bar.openTime < ·) with
    | true =>
      obtain ⟨-, rfl⟩ | ⟨hnot, -⟩ := stepBar_ok lo step
      · exact ⟨ih.numbered, ih.entries, ih.exits,
          .inl (ih.flat_of_skip hrows hordered htraded)⟩
      · rw [htraded] at hnot
        cases hnot
    | false =>
      obtain ⟨hnumbered, ⟨f, added, htrades, hkept, hadded⟩, hend⟩ :=
        stepBar_dayTrade ih.numbered step htraded
      have htoday : ∀ t ∈ st'.trades, t.isOpen = true → dayOf t.entryTime = date row.bar := by
        intro t ht hopen
        rw [htrades] at ht
        obtain ht | ht := List.mem_append.mp ht
        · obtain ⟨u, hu, rfl⟩ := List.mem_map.mp ht
          obtain heq | ⟨-, -, x, hx, -⟩ := hkept u hu
          · rw [heq] at hopen ⊢
            exact ih.open_today u hu hopen
          · rw [RegisteredTrade.isOpen, hx] at hopen
            cases hopen
        · rw [(hadded t ht).1.1.1]
          rfl
      refine ⟨hnumbered, ?_, ?_, ?_⟩
      · intro t ht
        rw [htrades] at ht
        obtain ht | ht := List.mem_append.mp ht
        · obtain ⟨u, hu, rfl⟩ := List.mem_map.mp ht
          obtain heq | ⟨-, htrade, -⟩ := hkept u hu
          · rw [heq]
            exact ih.entries u hu
          · rw [htrade]
            exact ih.entries u hu
        · exact ih.entry hrows hordered (hadded t ht).1.1 (hadded t ht).1.2
      · intro t ht x hx
        rw [htrades] at ht
        obtain ht | ht := List.mem_append.mp ht
        · obtain ⟨u, hu, rfl⟩ := List.mem_map.mp ht
          obtain heq | ⟨hopen, htrade, x', hx', htime⟩ := hkept u hu
          · rw [heq] at hx ⊢
            exact ih.exits u hu x hx
          · rw [hx'] at hx
            cases hx
            rw [htrade, htime, ih.open_today u hu hopen]
            rfl
        · rw [(hadded t ht).2 x hx, (hadded t ht).1.1.1]
      · obtain hflat' | ⟨hlast, hqueued⟩ := hend
        · exact .inl hflat'
        · refine .inr ⟨done, row, ?_⟩
          cases rest with
          | nil => cases hlast
          | cons next after =>
            have hday : date next.bar = date row.bar := by simpa [isLastOfDay] using hlast
            exact ⟨next, after, rfl, rfl, hday, htraded, htoday, hqueued⟩

end Invariant

/-! ## Whole runs -/

section Run

variable {S : Type} {e : Engine} {strategy : TradingStrategy S} {s : S} {tradeStart : Option Time}
  {bars : List Bar} {trades : List RegisteredTrade}

/-- The contract of `compute_indicators`: the rows come back with more columns. Rows may be left
out. -/
def KeepsRows (strategy : TradingStrategy S) : Prop :=
  ∀ {s bars s' frame}, strategy.computeIndicators s bars = (s', .ok frame) →
    frame.bars.Sublist bars

theorem KeepsRows.ordered (h : KeepsRows strategy) {s' : S} {frame : IndicatorFrame}
    (hordered : Ordered Bar.openTime bars)
    (haugment : augmentIndicatorFrame strategy s bars = (s', .ok frame)) :
    Ordered (fun r : BarRow => r.bar.openTime) frame.rows := by
  unfold augmentIndicatorFrame at haugment
  simp only [Prod.mk.injEq] at haugment
  obtain ⟨chunk, hchunk, hcomplete⟩ := bind_eq_ok.mp haugment.2
  have hbars : Ordered Bar.openTime frame.bars := by
    rw [completeColumns_bars hcomplete]
    exact List.Pairwise.sublist (h (Prod.ext haugment.1 hchunk)) hordered
  rw [← bars_rows] at hbars
  unfold Ordered at hbars ⊢
  rwa [List.pairwise_map] at hbars

theorem times_of_dayTrade {times : Option DayTradeTimes} (hday : e.dayTrade = true)
    (h : e.times = .ok times) : ∃ t, times = some t := by
  unfold Engine.times at h
  rw [if_pos hday] at h
  split at h
  · cases h
    exact ⟨_, rfl⟩
  · cases h

theorem startState_flat (e : Engine) (session : Session S) : Flat (startState e session) :=
  ⟨by simp [startState], rfl, rfl⟩

/-- A sequential run with day trading on holds nothing overnight: every trade is closed on the day of
its entry, entered before the close time and signalled earlier that day inside the entry window, and
wherever the loop goes from one day to the next nothing is open and nothing is queued. -/
theorem dayTrade_holds_nothing_overnight (hstrategy : KeepsRows strategy)
    (hday : e.dayTrade = true) (hordered : Ordered Bar.openTime bars)
    (hrun : run e strategy .sequential tradeStart s bars = .ok trades) :
    (bars = [] ∧ trades = []) ∨ ∃ times s' frame, e.times = .ok (some times) ∧
      augmentIndicatorFrame strategy s bars = (s', .ok frame) ∧
      (∀ t ∈ trades, (∃ x, t.exit = some x ∧ dayOf x.time = dayOf t.entryTime) ∧
        IntradayEntry strategy s' times frame.rows t.toTrade) ∧
      ∀ done last next rest st, Visits e strategy s' (some times) tradeStart frame.rows
        (startState e { strategy := s }) (done ++ [last]) (next :: rest) st →
          date next.bar ≠ date last.bar → Flat st := by
  unfold run at hrun
  split at hrun
  · next hnil =>
    cases hrun
    exact .inl ⟨hnil, rfl⟩
  · simp only [bind_eq_ok, pure_eq_ok] at hrun
    obtain ⟨⟨result, session⟩, hchunk, rfl⟩ := hrun
    obtain ⟨s', frame, times, st, haugment, htimes, hrows, rfl, -⟩ := runSingleChunk_ok hchunk
    obtain ⟨times, rfl⟩ := times_of_dayTrade hday htimes
    have hinvariant : ∀ {done rest st}, Visits e strategy s' (some times) tradeStart frame.rows
        (startState e { strategy := s }) done rest st →
        DayInvariant e 0 strategy s' times tradeStart frame.rows done rest st := fun hvisits =>
      dayInvariant_of_visits (hstrategy.ordered hordered haugment)
        (startState_within e { strategy := s } []).numbered rfl (startState_flat e _) hvisits
    refine .inr ⟨times, s', frame, htimes, haugment, ?_, ?_⟩
    · have hend := hinvariant (Visits.start.runRows hrows)
      intro t ht
      have hclosed : t.isOpen = false := by
        obtain hflat | ⟨earlier, last, next, after, -, hrest, -⟩ := hend.carried
        · exact hflat.trades t ht
        · cases hrest
      refine ⟨?_, hend.entries t ht⟩
      cases hexit : t.exit with
      | none =>
        rw [RegisteredTrade.isOpen, hexit] at hclosed
        cases hclosed
      | some x => exact ⟨x, rfl, hend.exits t ht x hexit⟩
    · intro done last next rest st hvisits hdays
      obtain hflat | ⟨earlier, last', next', after, hdone, hrest, hday', -⟩ :=
        (hinvariant hvisits).carried
      · exact hflat
      · obtain ⟨-, hlast⟩ := List.append_inj' hdone rfl
        cases hlast
        cases hrest
        exact absurd hday' hdays

end Run

/-! ## A day of trading -/

theorem momentumStrategy_keepsRows : KeepsRows momentumStrategy := by
  intro s bars s' frame h
  cases h
  exact List.Sublist.refl _

def intradayEngine : Engine :=
  { unitEngine with dayTrade := true, dayTradeStartTime := "0:0", dayTradeEndTime := "0:4"
                    dayTradeCloseTime := "0:4" }

/-- The bars of one day and the first of the next. -/
def twoDays : List Bar := momentumBars ++ [minuteBar 1440 18 19]

/-- The clock of the engine, read character by character. -/
theorem intradayEngine_times :
    intradayEngine.times = .ok (some { start := 0, stop := 240000000, close := 240000000 }) := by
  have hsplit : "0:0".splitOn ":" = ["0", "0"] ∧ "0:4".splitOn ":" = ["0", "4"] := by
    unfold String.splitOn
    constructor
    all_goals
      rw [if_neg (by decide), String.splitOnAux, if_neg (by decide +kernel),
        if_neg (by decide +kernel), String.splitOnAux, if_neg (by decide +kernel),
        if_pos (by decide +kernel)]
      dsimp only
      rw [if_pos (by decide +kernel), String.splitOnAux, if_neg (by decide +kernel),
        if_neg (by decide +kernel), String.splitOnAux, if_pos (by decide +kernel)]
      decide +kernel
  have hdigits : "0".toNat? = some 0 ∧ "4".toNat? = some 4 := by
    unfold String.toNat? String.Slice.toNat? String.Slice.isNat
    simp only [String.Slice.forIn_eq_forIn_toList, String.Slice.foldl_eq_foldl_toList,
      String.copy_toSlice]
    decide +kernel
  simp [Engine.times, intradayEngine, parseTime, hsplit, hdigits]

/-- The second trade of the day is closed at the close time. -/
theorem intradayEngine_flat_overnight :
    ∃ trades, run intradayEngine momentumStrategy .sequential none () twoDays = .ok trades ∧
      trades.length = 2 ∧ ∀ t ∈ trades, ∃ x, t.exit = some x ∧ dayOf x.time = dayOf t.entryTime := by
  have hcount : (run intradayEngine momentumStrategy .sequential none () twoDays).toOption.map
      List.length = some 2 := by
    unfold run runSingleChunk
    rw [intradayEngine_times]
    decide +kernel
  obtain ⟨trades, htrades, hlength⟩ := Option.map_eq_some_iff.mp hcount
  have hrun := eq_ok_of_toOption htrades
  have hordered : Ordered Bar.openTime twoDays := by
    unfold Ordered
    decide +kernel
  refine ⟨trades, hrun, hlength, ?_⟩
  obtain ⟨hnil, -⟩ | ⟨times, s', frame, -, -, hall, -⟩ :=
    dayTrade_holds_nothing_overnight momentumStrategy_keepsRows rfl hordered hrun
  · cases hnil
  · exact fun t ht => (hall t ht).1

end QBackend.Backtesting
