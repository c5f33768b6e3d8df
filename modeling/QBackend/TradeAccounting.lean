import QBackend.WholeContracts
import QBackend.EquityCurves

/-!
# Trade accounting

The engine closes trades at five places and keeps the capital in one number beside the registry. The
invariant: every trade carries the costs of its sides and the profit less these costs, and the
capital is the initial one plus the profits of the registry. A closing loop keeps it because it goes
over trades that are open and differ in their identifiers, since the profit of a closed trade would
be added once more.
-/

namespace QBackend.Backtesting

open Execution FallibleSteps OrderedSeries

/-! ## Settled trades -/

namespace RegisteredTrade

/-- The cost of the side of a trade at a price. -/
def costAt (costs : Option TransactionCostConfig) (trade : RegisteredTrade) (price : ℚ) : ℚ :=
  sideCost costs price trade.quantity trade.pointValue

def sign (trade : RegisteredTrade) : ℚ := if trade.action = .buy then 1 else -1

/-- An open trade carries the cost of its entry, a closed one the costs of both sides and the profit
that is left. -/
def Settled (costs : Option TransactionCostConfig) (trade : RegisteredTrade) : Prop :=
  match trade.exit with
  | none => trade.commission = trade.costAt costs trade.entryPrice
  | some x =>
    trade.commission = trade.costAt costs trade.entryPrice + trade.costAt costs x.price ∧
      x.pnl = trade.sign * (x.price - trade.entryPrice) * trade.quantity * trade.pointValue -
        trade.costAt costs trade.entryPrice - trade.costAt costs x.price

theorem Settled.close {costs : Option TransactionCostConfig} {trade : RegisteredTrade}
    (h : trade.Settled costs) (hopen : trade.exit = none) (time : Time) (price : ℚ)
    (reason : String) : (trade.close costs time price reason).Settled costs := by
  rw [Settled, hopen] at h
  have hcommission : (trade.close costs time price reason).commission =
      trade.costAt costs trade.entryPrice + trade.costAt costs price := by
    rw [← h]
    rfl
  refine ⟨hcommission, ?_⟩
  show (if trade.action = .buy then _ else _) - (trade.close costs time price reason).commission = _
  rw [hcommission]
  show _ = trade.sign * (price - trade.entryPrice) * trade.quantity * trade.pointValue -
    trade.costAt costs trade.entryPrice - trade.costAt costs price
  unfold sign
  split <;> ring

end RegisteredTrade

/-! ## The books of the engine -/

/-- The trades are settled and the capital holds their profits. -/
structure Books (e : Engine) (lo : ℕ) (st : EngineState) : Prop where
  numbered : Numbered e lo st
  settled : ∀ t ∈ st.trades, t.Settled e.costs
  capital : st.capital = e.initialCapital + totalProfit st.trades

section Operations

variable {e : Engine} {lo : ℕ} {st st' : EngineState} {time : Time} {price : ℚ} {reason : String}
  {row : BarRow}

theorem closedIf_of_ne {t : RegisteredTrade} {id : String} (h : t.id ≠ id) :
    closedIf e time price reason (· = id) t = t := by
  unfold closedIf
  rw [if_neg fun hc => h hc.2]

/-- Closing an open trade adds its profit, and nothing else changes. -/
theorem totalProfit_closedIf {trades : List RegisteredTrade} {t : RegisteredTrade}
    (hnodup : (trades.map (·.id)).Nodup) (ht : t ∈ trades) (hopen : t.exit = none) :
    totalProfit (trades.map (closedIf e time price reason (· = t.id))) =
      totalProfit trades + (t.close e.costs time price reason).profit := by
  obtain ⟨before, after, rfl⟩ := List.append_of_mem ht
  rw [List.map_append, List.map_cons, List.nodup_append, List.nodup_cons] at hnodup
  obtain ⟨-, ⟨hafter, -⟩, hbefore⟩ := hnodup
  have hkeep : ∀ part : List RegisteredTrade, (∀ u ∈ part, u.id ≠ t.id) →
      part.map (closedIf e time price reason (· = t.id)) = part := fun part hpart =>
    (List.map_congr_left fun u hu => closedIf_of_ne (hpart u hu)).trans (List.map_id part)
  have hclosed : closedIf e time price reason (· = t.id) t = t.close e.costs time price reason :=
    if_pos ⟨by simp [RegisteredTrade.isOpen, hopen], rfl⟩
  have hzero : t.profit = 0 := by rw [RegisteredTrade.profit, hopen, Option.elim_none]
  rw [List.map_append, List.map_cons, hclosed, hkeep before fun u hu =>
      hbefore u.id (List.mem_map_of_mem hu) t.id List.mem_cons_self,
    hkeep after fun u hu heq => hafter (heq ▸ List.mem_map_of_mem hu),
    totalProfit_append, totalProfit_append, totalProfit_cons, totalProfit_cons, hzero]
  ring

theorem find_of_distinct (h : st.Distinct) {t : RegisteredTrade} (ht : t ∈ st.trades) :
    st.trades.find? (fun u => u.id = t.id) = some t := by
  cases hfind : st.trades.find? (fun u => u.id = t.id) with
  | none =>
    have hnot := List.find?_eq_none.mp hfind t ht
    simp at hnot
  | some u =>
    have hid : u.id = t.id := by simpa using List.find?_some hfind
    rw [List.inj_on_of_nodup_map h (List.mem_of_find?_eq_some hfind) ht hid]

theorem Books.closeTrade (h : Books e lo st) {t : RegisteredTrade} (ht : t ∈ st.trades)
    (hopen : t.exit = none) : Books e lo (st.closeTrade e time price reason t.id) where
  numbered := by
    have hone : Advances e lo (fun _ => True) (fun _ => True) st
        (st.closeTrades e time price reason [t.id]) :=
      closeTrades_advances [t.id] (fun _ => trivial) st
    exact (hone h.numbered).1
  settled := by
    rw [EngineState.closeTrade_trades h.numbered.distinct]
    intro u hu
    obtain ⟨v, hv, rfl⟩ := List.mem_map.mp hu
    unfold closedIf
    split
    next hclose =>
      have hnone : v.exit = none := by simpa [RegisteredTrade.isOpen] using hclose.1
      exact (h.settled v hv).close hnone time price reason
    · exact h.settled v hv
  capital := by
    rw [EngineState.closeTrade_trades h.numbered.distinct,
      totalProfit_closedIf h.numbered.distinct ht hopen, ← add_assoc, ← h.capital,
      EngineState.closeTrade, find_of_distinct h.numbered.distinct ht]
    dsimp only
    rw [hopen]
    rfl

theorem Books.closeTrades (h : Books e lo st) {ids : List String} (hnodup : ids.Nodup)
    (hids : ∀ id ∈ ids, ∃ t ∈ st.trades, t.id = id ∧ t.exit = none) :
    Books e lo (st.closeTrades e time price reason ids) := by
  induction ids generalizing st with
  | nil => exact h
  | cons id rest ih =>
    obtain ⟨hnew, hrest⟩ := List.nodup_cons.mp hnodup
    obtain ⟨t, ht, rfl, hopen⟩ := hids id List.mem_cons_self
    refine ih (h.closeTrade ht hopen) hrest fun id hid => ?_
    obtain ⟨u, hu, rfl, huopen⟩ := hids id (List.mem_cons_of_mem _ hid)
    have hne : u.id ≠ t.id := fun heq => hnew (heq ▸ hid)
    refine ⟨u, ?_, rfl, huopen⟩
    rw [EngineState.closeTrade_trades h.numbered.distinct]
    exact List.mem_map.mpr ⟨u, hu, closedIf_of_ne hne⟩

theorem Books.closeSome (h : Books e lo st) {chosen : List Trade}
    (hchosen : chosen.Sublist st.openTrades) :
    Books e lo (st.closeTrades e time price reason (chosen.map Trade.id)) := by
  have hopen : (st.openTrades.map Trade.id).Sublist (st.trades.map (·.id)) := by
    rw [EngineState.openTrades, List.map_map]
    exact List.filter_sublist.map _
  refine h.closeTrades (h.numbered.distinct.sublist ((hchosen.map _).trans hopen)) fun id hid => ?_
  obtain ⟨t, ht, rfl⟩ := List.mem_map.mp hid
  obtain ⟨u, hu, rfl⟩ := List.mem_map.mp (hchosen.subset ht)
  obtain ⟨hmem, hisOpen⟩ := List.mem_filter.mp hu
  exact ⟨u, hmem, rfl, by simpa [RegisteredTrade.isOpen] using hisOpen⟩

theorem Books.closeAll (h : Books e lo st) : Books e lo (st.closeAll e time price reason) :=
  h.closeSome (List.Sublist.refl _)

theorem Books.executeExits (h : Books e lo st) : Books e lo (st.executeExits e time price) := by
  unfold EngineState.executeExits
  generalize st.pendingExits = signals
  induction signals generalizing st with
  | nil => exact h
  | cons signal rest ih =>
    refine ih ?_
    unfold EngineState.executeExit
    split
    · exact h
    · exact h.closeSome List.filter_sublist

theorem Books.executeEntry (h : Books e lo st) (signal : Signal) :
    Books e lo (st.executeEntry e row.bar.openTime row.bar.open_ row signal) where
  numbered := by
    have hone : Advances e lo (fun _ => True) (OpenedBy row [signal]) st
        (st.executeEntry e row.bar.openTime row.bar.open_ row signal) :=
      executeEntry_advances signal (List.mem_singleton_self _) st
    exact (hone h.numbered).1
  settled := by
    unfold EngineState.executeEntry
    split
    · exact h.settled
    · intro t ht
      obtain ht | ht := List.mem_append.mp ht
      · exact h.settled t ht
      · rw [List.mem_singleton.mp ht]
        exact rfl
  capital := by
    unfold EngineState.executeEntry
    split
    · exact h.capital
    · rw [totalProfit_append, h.capital]
      simp [RegisteredTrade.profit]

theorem Books.executeEntries (h : Books e lo st) (signals : List Signal) :
    Books e lo
      (signals.foldl (EngineState.executeEntry e row.bar.openTime row.bar.open_ row) st) := by
  induction signals generalizing st with
  | nil => exact h
  | cons signal rest ih => exact ih (h.executeEntry signal)

theorem Books.clearPending (h : Books e lo st) : Books e lo st.clearPending :=
  ⟨⟨h.numbered.lo_le, h.numbered.ids⟩, h.settled, h.capital⟩

end Operations

/-! ## Bars and runs -/

section Loop

variable {S : Type} {e : Engine} {strategy : TradingStrategy S} {s : S}
  {times : Option DayTradeTimes} {tradeStart : Option Time} {rows done rest : List BarRow}
  {row : BarRow} {signal : Signal} {lo : ℕ} {st₀ st st' : EngineState}

theorem Books.queueSignals {allowed : Bool} (h : Books e lo st)
    (hqueue : queueSignals strategy s row allowed st = .ok st') : Books e lo st' := by
  simp only [Backtesting.queueSignals, bind_eq_ok, pure_eq_ok] at hqueue
  obtain ⟨exits, -, entries, -, rfl⟩ := hqueue
  exact ⟨⟨h.numbered.lo_le, h.numbered.ids⟩, h.settled, h.capital⟩

theorem Books.executed (h : Books e lo st) :
    Books e lo ((st.executeExits e row.bar.openTime row.bar.open_).executeEntries e
      row.bar.openTime row.bar.open_ row) :=
  h.executeExits.executeEntries _

theorem Books.stepBar {lastOfDay : Bool} (h : Books e lo st)
    (hstep : stepBar e strategy s times tradeStart lastOfDay row st = .ok st') :
    Books e lo st' := by
  unfold Backtesting.stepBar at hstep
  dsimp only at hstep
  split at hstep
  · cases hstep
    exact h
  · split at hstep
    · exact h.executed.queueSignals hstep
    · split at hstep
      · cases hstep
        exact h.closeAll.clearPending
      · split at hstep
        · cases hstep
          exact h.executed.closeAll.clearPending
        · exact h.executed.queueSignals hstep

theorem Visits.books (hstart : Books e lo st₀)
    (h : Visits e strategy s times tradeStart rows st₀ done rest st) : Books e lo st := by
  induction h with
  | start => exact hstart
  | bar before step ih => exact ih.stepBar step

theorem EntryStep.books (hstart : Books e lo st₀)
    (h : EntryStep e strategy s times tradeStart rows st₀ st row signal) : Books e lo st := by
  obtain ⟨point, -, -, -⟩ := h
  exact ((point.books hstart).executeExits).executeEntries _

theorem startState_books (e : Engine) (session : Session S) :
    Books e session.drawn (startState e session) where
  numbered := (startState_within e session []).numbered
  settled := by simp [startState]
  capital := by simp [startState]

theorem Books.forceClose (h : Books e lo st) (bars : List Bar) :
    Books e lo (forceClose e bars st) := by
  unfold Backtesting.forceClose
  split
  · exact h
  · exact h.closeAll

/-! ## Trades that are closed stay as they are -/

/-- Every trade of the state is among the trades, as it is if it is closed. -/
def StaysIn (st : EngineState) (trades : List RegisteredTrade) : Prop :=
  ∀ t ∈ st.trades, ∃ u ∈ trades, u.toTrade = t.toTrade ∧ (t.isOpen = false → u = t)

theorem Advances.staysIn {P : TradeExit → Prop} {Q : Trade → Prop} (h : Advances e lo P Q st st')
    (hnumbered : Numbered e lo st) : StaysIn st st'.trades := by
  obtain ⟨-, f, added, htrades, hkept, -⟩ := h hnumbered
  intro t ht
  refine ⟨f t, ?_, ?_⟩
  · rw [htrades]
    exact List.mem_append_left _ (List.mem_map_of_mem ht)
  · obtain heq | ⟨hopen, htrade, -⟩ := hkept t ht
    · exact ⟨by rw [heq], fun _ => heq⟩
    · exact ⟨htrade, fun hclosed => absurd hopen (by rw [hclosed]; exact Bool.false_ne_true)⟩

theorem executeEntries_all (signals : List Signal) (st : EngineState) :
    Advances e lo (fun _ => True) (fun _ => True) st
      (signals.foldl (EngineState.executeEntry e row.bar.openTime row.bar.open_ row) st) := by
  induction signals generalizing st with
  | nil => exact .refl st
  | cons signal rest ih =>
    have hentry : Advances e lo (fun _ => True) (OpenedBy row [signal]) st
        (st.executeEntry e row.bar.openTime row.bar.open_ row signal) :=
      executeEntry_advances signal (List.mem_singleton_self _) st
    exact (hentry.mono (fun _ h => h) fun _ _ => trivial).trans (ih _)

theorem EntryStep.advances (h : EntryStep e strategy s times tradeStart rows st₀ st row signal)
    (hrun : runRows e strategy s times tradeStart rows st₀ = .ok st') :
    Advances e lo (fun _ => True) (fun _ => True) st st' := by
  obtain @⟨done, row, rest, mid, before, signal, after, point, htraded, hunclosed, hqueue⟩ := h
  have hrest := point.rest_ok hrun
  simp only [Backtesting.runRows, bind_eq_ok] at hrest
  obtain ⟨next, hnext, hrest⟩ := hrest
  have hclose : Advances e lo (fun _ => True) (fun _ => False) _ next :=
    stepBar_executed hnext htraded hunclosed
  have hentries : Advances e lo (fun _ => True) (fun _ => True)
      (before.foldl (EngineState.executeEntry e row.bar.openTime row.bar.open_ row)
        (mid.executeExits e row.bar.openTime row.bar.open_))
      ((mid.executeExits e row.bar.openTime row.bar.open_).executeEntries e row.bar.openTime
        row.bar.open_ row) := by
    unfold EngineState.executeEntries
    rw [EngineState.executeExits_pendingEntries, hqueue, List.foldl_append]
    exact executeEntries_all _ _
  refine hentries.trans ((hclose.mono (fun _ h => h) fun _ h => h.elim).trans ?_)
  exact (runRows_advances hrest).mono (fun _ _ => trivial) fun _ _ => trivial

/-! ## Time -/

/-- Entered at one of the times, and closed no earlier. -/
def Timely (T : List Time) (t : RegisteredTrade) : Prop :=
  t.entryTime ∈ T ∧ ∀ x, t.exit = some x → t.entryTime ≤ x.time

theorem timely_of_progress {T : List Time} {now : Time} {old new : List RegisteredTrade}
    (hold : ∀ t ∈ old, Timely T t) (hT : ∀ time ∈ T, time ≤ now)
    (h : Progress (·.time = now) (·.entryTime = now) old new) :
    ∀ t ∈ new, Timely (T ++ [now]) t := by
  obtain ⟨f, added, rfl, hkept, hadded⟩ := h
  intro t ht
  obtain ht | ht := List.mem_append.mp ht
  · obtain ⟨u, hu, rfl⟩ := List.mem_map.mp ht
    obtain ⟨hmem, hexit⟩ := hold u hu
    obtain heq | ⟨-, htrade, x, hx, hnow⟩ := hkept u hu
    · rw [heq]
      exact ⟨List.mem_append_left _ hmem, hexit⟩
    · refine ⟨by rw [htrade]; exact List.mem_append_left _ hmem, fun y hy => ?_⟩
      rw [hx] at hy
      cases hy
      rw [htrade, hnow]
      exact hT _ hmem
  · obtain ⟨hentry, hexit⟩ := hadded t ht
    refine ⟨hentry ▸ List.mem_append_right _ (List.mem_singleton_self _), fun x hx => ?_⟩
    rw [hentry, hexit x hx]

def InOrder (rows : List BarRow) : Prop :=
  rows.Pairwise fun r r' => r.bar.openTime ≤ r'.bar.openTime

theorem Visits.timely (hrows : InOrder rows) (hstart : Numbered e lo st₀)
    (hempty : st₀.trades = [])
    (h : Visits e strategy s times tradeStart rows st₀ done rest st) :
    ∀ t ∈ st.trades, Timely (rowTimes done) t := by
  induction h with
  | start => simp [hempty]
  | @bar done row rest st st' before step ih =>
    have hnumbered := before.numbered hstart
    rw [rowTimes, List.map_append, ← rowTimes]
    obtain ⟨-, rfl⟩ | ⟨-, hadvances, -⟩ := stepBar_ok lo step
    · exact fun t ht => ⟨List.mem_append_left _ (ih t ht).1, (ih t ht).2⟩
    · refine timely_of_progress ih (fun time htime => ?_)
        ((hadvances hnumbered).2.mono (fun _ h => h) fun _ h => h.1)
      obtain ⟨r, hr, rfl⟩ := List.mem_map.mp htime
      rw [InOrder, ← before.append] at hrows
      exact (List.pairwise_append.mp hrows).2.2 r hr row List.mem_cons_self

theorem Visits.of_skipped (h : Visits e strategy s times tradeStart rows st₀ done rest st)
    (hskip : ∀ r ∈ done, tradeStart.any (r.bar.openTime < ·) = true) : st = st₀ := by
  induction h with
  | start => rfl
  | @bar done row rest st st' before step ih =>
    have hrow := hskip row (List.mem_append_right _ (List.mem_singleton_self row))
    unfold Backtesting.stepBar at step
    dsimp only at step
    rw [if_pos hrow] at step
    cases step
    exact ih fun r hr => hskip r (List.mem_append_left _ hr)

/-- With day trading on, a run over rows in order of time ends with all trades closed. -/
theorem Visits.all_closed {clock : DayTradeTimes} (hrows : InOrder rows)
    (hstart : Numbered e lo st₀) (hempty : st₀.trades = [])
    (h : Visits e strategy s (some clock) tradeStart rows st₀ done [] st) :
    ∀ t ∈ st.trades, t.isOpen = false := by
  generalize hend : ([] : List BarRow) = rest at h
  cases h with
  | start => simp [hempty]
  | @bar done row _ mid _ before step =>
    subst hend
    have hnumbered := before.numbered hstart
    unfold Backtesting.stepBar at step
    dsimp only at step
    split at step
    next hskip =>
      -- The last row is before the start, and so are the rows before it.
      cases step
      have hbefore : ∀ r ∈ done, tradeStart.any (r.bar.openTime < ·) = true := by
        intro r hr
        rw [InOrder, ← before.append] at hrows
        have hle := (List.pairwise_append.mp hrows).2.2 r hr row List.mem_cons_self
        obtain ⟨start, hstart, hlt⟩ := Option.any_eq_true _ _ |>.mp hskip
        rw [hstart, Option.any_some, decide_eq_true_eq]
        exact hle.trans_lt (of_decide_eq_true hlt)
      rw [before.of_skipped hbefore, hempty]
      simp
    · split at step
      · cases step
        exact closeAll_closed hnumbered.distinct
      · rw [if_pos (show isLastOfDay row [] = true from rfl)] at step
        cases step
        have hexits : Advances e lo (fun _ => True) (fun _ => True) mid
            (mid.executeExits e row.bar.openTime row.bar.open_) :=
          executeExits_advances (fun _ _ => trivial) mid
        exact closeAll_closed (hexits.trans (executeEntries_all _ _) hnumbered).1.distinct

end Loop

/-! ## Chunks -/

section Chunk

variable {S : Type} {e : Engine} {strategy : TradingStrategy S} {tradeStart : Option Time}
  {force : Bool} {chunk : List Bar} {session session' : Session S} {trades : List RegisteredTrade}

/-- The bars are in order of time, and so are the rows that the strategy makes of them. -/
def InTime (strategy : TradingStrategy S) (bars : List Bar) : Prop :=
  KeepsRows strategy ∧ bars.Pairwise fun b b' => b.openTime ≤ b'.openTime

theorem InTime.inOrder {s s' : S} {frame : IndicatorFrame} (h : InTime strategy chunk)
    (haugment : augmentIndicatorFrame strategy s chunk = (s', .ok frame)) : InOrder frame.rows := by
  unfold augmentIndicatorFrame at haugment
  simp only [Prod.mk.injEq] at haugment
  obtain ⟨raw, hraw, hcomplete⟩ := bind_eq_ok.mp haugment.2
  have hbars : frame.bars.Pairwise fun b b' => b.openTime ≤ b'.openTime := by
    rw [completeColumns_bars hcomplete]
    exact h.2.sublist (h.1 (Prod.ext haugment.1 hraw))
  rwa [← bars_rows, List.pairwise_map] at hbars

/-- Every trade of a chunk is settled; with the forced close it is closed. -/
theorem runSingleChunk_settled
    (h : runSingleChunk e strategy tradeStart force chunk session = .ok (trades, session')) :
    (∀ t ∈ trades, t.Settled e.costs) ∧ (force = true → ∀ t ∈ trades, t.isOpen = false) := by
  obtain ⟨s, frame, times, st, -, -, hrows, rfl, -⟩ := runSingleChunk_ok h
  have hbooks : Books e session.drawn st :=
    (Visits.start.runRows hrows).books (startState_books e session)
  cases force with
  | false => exact ⟨hbooks.settled, nofun⟩
  | true =>
    refine ⟨(hbooks.forceClose frame.bars).settled, fun _ => ?_⟩
    unfold forceClose
    cases hlast : frame.bars.getLast? with
    | some bar => exact closeAll_closed hbooks.numbered.distinct
    | none =>
      have hnil : frame.rows = [] := by
        rw [List.getLast?_eq_none_iff, ← bars_rows, List.map_eq_nil_iff] at hlast
        exact hlast
      rw [hnil] at hrows
      cases hrows
      simp [startState]

theorem runSingleChunk_timely (htime : InTime strategy chunk)
    (h : runSingleChunk e strategy tradeStart force chunk session = .ok (trades, session')) :
    ∀ t ∈ trades, ∀ x, t.exit = some x → t.entryTime ≤ x.time := by
  obtain ⟨s, frame, times, st, haugment, -, hrows, rfl, -⟩ := runSingleChunk_ok h
  have horder := htime.inOrder haugment
  have hstart := (startState_within e session []).numbered
  have hvisits := Visits.start.runRows hrows
  have htimely := hvisits.timely horder hstart rfl
  cases force with
  | false => exact fun t ht => (htimely t ht).2
  | true =>
    have hnumbered := hvisits.numbered hstart
    simp only [if_true]
    unfold forceClose
    cases hlast : frame.bars.getLast? with
    | none => exact fun t ht => (htimely t ht).2
    | some bar =>
      have hclose : Advances e session.drawn (·.time = bar.openTime) (·.entryTime = bar.openTime) st
          (st.closeAll e bar.openTime bar.close "FORCE_CLOSE") :=
        closeAll_advances (fun _ => rfl) st
      have hbefore : ∀ time ∈ rowTimes ([] ++ frame.rows), time ≤ bar.openTime := by
        intro time hmem
        obtain ⟨front, hfront⟩ := List.getLast?_eq_some_iff.mp hlast
        rw [List.nil_append, rowTimes_rows, hfront] at hmem
        rw [InOrder, ← List.pairwise_map (f := BarRow.bar) (R := fun b b' : Bar =>
          b.openTime ≤ b'.openTime), bars_rows, hfront] at horder
        obtain ⟨b, hb, rfl⟩ := List.mem_map.mp hmem
        obtain hb | hb := List.mem_append.mp hb
        · exact (List.pairwise_append.mp horder).2.2 b hb bar (List.mem_singleton_self bar)
        · rw [List.mem_singleton.mp hb]
      exact fun t ht => (timely_of_progress htimely hbefore (hclose hnumbered).2 t ht).2

theorem runSingleChunk_closed (htime : InTime strategy chunk) (hday : e.dayTrade = true)
    (h : runSingleChunk e strategy tradeStart false chunk session = .ok (trades, session')) :
    ∀ t ∈ trades, t.isOpen = false := by
  obtain ⟨s, frame, times, st, haugment, htimes, hrows, rfl, -⟩ := runSingleChunk_ok h
  obtain ⟨clock, rfl⟩ := times_of_dayTrade hday htimes
  exact (Visits.start.runRows hrows).all_closed (htime.inOrder haugment)
    (startState_within e session []).numbered rfl

theorem ChunkEntry.sized {st : EngineState} {row : BarRow} {signal : Signal}
    (h : ChunkEntry e strategy tradeStart chunk session st row signal)
    (hrun : runSingleChunk e strategy tradeStart force chunk session = .ok (trades, session')) :
    st.capital = e.initialCapital + totalProfit st.trades ∧ StaysIn st trades := by
  obtain ⟨s, frame, times, st', haugment, htimes, hrows, rfl, -⟩ := runSingleChunk_ok hrun
  obtain ⟨s'', frame', times', haugment', htimes', hstep⟩ := h
  rw [haugment] at haugment'
  rw [htimes] at htimes'
  cases haugment'
  cases htimes'
  have hbooks := hstep.books (startState_books e session)
  refine ⟨hbooks.capital, ?_⟩
  have hend : Advances e session.drawn (fun _ => True) (fun _ => True) st
      (if force then forceClose e frame.bars st' else st') := by
    cases force with
    | false => exact hstep.advances hrows
    | true =>
      exact (hstep.advances hrows).trans ((forceClose_advances _ st').mono (fun _ _ => trivial)
        fun _ h => h)
  exact hend.staysIn hbooks.numbered

end Chunk

/-! ## Whole runs -/

section Run

variable {S : Type} {e : Engine} {strategy : TradingStrategy S} {mode : ParallelMode}
  {tradeStart : Option Time} {s : S} {bars : List Bar} {trades : List RegisteredTrade}

theorem StartsChunk.inTime {chunk : List Bar} {session : Session S}
    (h : StartsChunk e strategy mode tradeStart s bars chunk session)
    (htime : InTime strategy bars) : InTime strategy chunk := by
  obtain ⟨-, h⟩ := h
  cases mode with
  | sequential => exact h.1 ▸ htime
  | dayTrade =>
    obtain ⟨before, after, acc, hdays, -, -⟩ := h
    have hmem : chunk ∈ dailyChunks bars := by simp [hdays]
    rw [dailyChunks_eq] at hmem
    obtain ⟨d, -, rfl⟩ := List.mem_map.mp hmem
    exact ⟨htime.1, htime.2.sublist List.filter_sublist⟩

theorem run_distinct (h : run e strategy mode tradeStart s bars = .ok trades) :
    (trades.map (·.id)).Nodup := by
  unfold run at h
  split at h
  · cases h
    exact List.nodup_nil
  · cases mode with
    | sequential =>
      simp only [bind_eq_ok, pure_eq_ok] at h
      obtain ⟨⟨result, session⟩, hchunk, rfl⟩ := h
      rw [(runSingleChunk_numbered hchunk).2]
      exact List.Nodup.map e.uuid_injective List.nodup_range'
    | dayTrade =>
      simp only [bind_eq_ok, pure_eq_ok] at h
      obtain ⟨acc, hfold, rfl⟩ := h
      have hstart : Merged e (([], { strategy := s }) : List RegisteredTrade × Session S) := rfl
      have hmerged : Merged e acc := by
        refine foldlM_invariant (Merged e) (fun b chunk b' _ hb hstep => ?_) hstart hfold
        obtain ⟨-, -, -, hnext⟩ := runChunk_appends hb hstep
        exact hnext
      rw [show acc.1.map (·.id) = _ from hmerged]
      exact List.Nodup.map e.uuid_injective List.nodup_range

/-- The accounts of a run balance. Its trades are distinct and settled; those that are closed at an
entry stay as they are, and the entry is sized with the initial capital and their profits in its
chunk. The days of a day-trade run close all their trades, and so does day trading in order of time;
in order of time no trade is closed before it is opened. The equity curve of the closed trades is
strictly increasing in time and ends with all profits. -/
theorem run_accounts_balance (h : run e strategy mode tradeStart s bars = .ok trades) :
    (trades.map (·.id)).Nodup ∧ (∀ t ∈ trades, t.Settled e.costs) ∧
      (∀ st row signal, RunEntry e strategy mode tradeStart s bars st row signal →
        st.capital = e.initialCapital + totalProfit st.trades ∧ StaysIn st trades) ∧
      (mode = .dayTrade ∨ e.dayTrade = true ∧ InTime strategy bars →
        ∀ t ∈ trades, t.isOpen = false) ∧
      (InTime strategy bars → ∀ t ∈ trades, ∀ x, t.exit = some x → t.entryTime ≤ x.time) ∧
      ∀ start stop, start ≤ stop →
        Ordered Prod.fst (buildEquityCurve (trades.filter fun t => !t.isOpen) e.initialCapital
          start stop) ∧
        ∃ last, (buildEquityCurve (trades.filter fun t => !t.isOpen) e.initialCapital
          start stop).getLast? = some (last, e.initialCapital + totalProfit trades) := by
  obtain ⟨hfrom, hto⟩ := run_chunks h
  refine ⟨run_distinct h, ?_, ?_, ?_, ?_, ?_⟩
  · intro t ht
    obtain ⟨chunk, session, chunkTrades, session', -, hchunk, hmem⟩ := hfrom t ht
    exact (runSingleChunk_settled hchunk).1 t hmem
  · rintro st row signal ⟨chunk, session, hstarts, hentry⟩
    obtain ⟨chunkTrades, session', hchunk, hmem⟩ := hto chunk session hstarts
    obtain ⟨hcapital, hstays⟩ := hentry.sized hchunk
    refine ⟨hcapital, fun t ht => ?_⟩
    obtain ⟨u, hu, hut⟩ := hstays t ht
    exact ⟨u, hmem u hu, hut⟩
  · intro hcloses t ht
    obtain ⟨chunk, session, chunkTrades, session', hstarts, hchunk, hmem⟩ := hfrom t ht
    obtain hmode | ⟨hday, htime⟩ := hcloses
    · exact (runSingleChunk_settled hchunk).2 (by simpa using hmode) t hmem
    · cases mode with
      | sequential => exact runSingleChunk_closed (hstarts.inTime htime) hday hchunk t hmem
      | dayTrade => exact (runSingleChunk_settled hchunk).2 rfl t hmem
  · intro htime t ht
    obtain ⟨chunk, session, chunkTrades, session', hstarts, hchunk, hmem⟩ := hfrom t ht
    exact runSingleChunk_timely (hstarts.inTime htime) hchunk t hmem
  · intro start stop hwindow
    refine ⟨ordered_lastSeries _, ?_⟩
    rw [← totalProfit_closed trades]
    exact getLast_buildEquityCurve _ _ hwindow

end Run

/-! ## Accounts of a few bars -/

def costedEngine : Engine :=
  { unitEngine with
    costs := some
      { costPerContract := 1, perContract_nonneg := zero_le_one, bps_nonneg := le_rfl } }

/-- Two trades of one day, with a cost of one on each side. -/
theorem costedEngine_balances :
    ∃ trades, run costedEngine momentumStrategy .dayTrade none () twoDays = .ok trades ∧
      trades.map (·.profit) = [-1, -1] ∧ (∀ t ∈ trades, t.isOpen = false) ∧
      ∃ last, (buildEquityCurve (trades.filter fun t => !t.isOpen) costedEngine.initialCapital
        0 86400000000).getLast? = some (last, 99998) := by
  have hprofits : (run costedEngine momentumStrategy .dayTrade none () twoDays).toOption.map
      (fun trades => trades.map (·.profit)) = some [-1, -1] := by
    decide +kernel
  obtain ⟨trades, htrades, hlist⟩ := Option.map_eq_some_iff.mp hprofits
  have hrun := eq_ok_of_toOption htrades
  obtain ⟨-, -, -, hclosed, -, hcurve⟩ := run_accounts_balance hrun
  obtain ⟨-, last, hlast⟩ := hcurve 0 86400000000 (by decide)
  refine ⟨trades, hrun, hlist, hclosed (.inl rfl), last, hlast.trans ?_⟩
  have hcapital : costedEngine.initialCapital = 100000 := rfl
  rw [totalProfit, hlist, hcapital]
  norm_num

def capitalSize (capital : ℚ) : Option ℚ := if 0 < capital then some capital else none

theorem capitalSize_pos {capital q : ℚ} (h : capitalSize capital = some q) : 0 < q := by
  unfold capitalSize at h
  split at h
  next hpos =>
    cases h
    exact hpos
  · cases h

/-- An engine that buys its capital. -/
def capitalEngine : Engine :=
  { unitEngine with
    sizer :=
      { sizeSignal := fun _ _ capital _ => capitalSize capital
        maxPositionSize := fun _ _ => none
        size_pos := capitalSize_pos } }

def risingDays : List Bar :=
  [minuteBar 0 10 11, minuteBar 1 12 13, minuteBar 1440 10 11, minuteBar 1441 12 13]

/-- Four runs that do not balance: a sequential one that ends with an open trade; two days of which
the second is sized without the profit of the first; bars against the order of time, where a trade
is closed before it is opened; and a curve that starts after all exits and its end. -/
theorem accounts_unbalanced :
    (run unitEngine momentumStrategy .sequential none () (momentumBars.take 4)).toOption.map
        (fun trades => trades.map (·.exit.isSome)) = some [true, false] ∧
      (run capitalEngine momentumStrategy .dayTrade none () risingDays).toOption.map
        (fun trades => trades.map fun t => (t.entryTime, t.quantity, t.exit.map TradeExit.time,
          t.profit)) =
        some [(60000000, 100000, some 60000000, 100000),
          (86460000000, 100000, some 86460000000, 100000)] ∧
      (run unitEngine momentumStrategy .sequential none ()
        [minuteBar 5 10 11, minuteBar 4 12 11, minuteBar 0 13 14]).toOption.map
        (fun trades => trades.map fun t => (t.entryTime, t.exit.map TradeExit.time)) =
        some [(240000000, some 0)] ∧
      (run unitEngine momentumStrategy .sequential none () (momentumBars.take 3)).toOption.map
        (fun trades => (totalProfit trades,
          (buildEquityCurve trades 100000 600000000 0).getLast?)) =
        some (1, some (600000000, 100000)) := by
  refine ⟨?_, ?_, ?_, ?_⟩ <;> decide +kernel

end QBackend.Backtesting
