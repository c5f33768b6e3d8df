import QBackend.BacktestEngine
import QBackend.FallibleSteps
import Mathlib.Data.List.Range

/-!
# What a run does to the trades

A bar can close open trades and open new ones. `Advances` says this once for all operations of the
engine: every trade that was there is kept or, if it was open, closed with an exit that satisfies
`P`; every new trade satisfies `Q`; and the identifiers are drawn one after the other.
-/

namespace QBackend.Backtesting

open Execution FallibleSteps

/-! ## Identifiers -/

/-- The trades carry the identifiers drawn since `lo`, in order. -/
structure Numbered (e : Engine) (lo : ℕ) (st : EngineState) : Prop where
  lo_le : lo ≤ st.drawn
  ids : st.trades.map (·.id) = (List.range' lo (st.drawn - lo)).map e.uuid

variable {e : Engine} {lo : ℕ} {st st₁ st₂ st₃ : EngineState} {P P' : TradeExit → Prop}
  {Q Q' : Trade → Prop}

theorem Numbered.distinct (h : Numbered e lo st) : st.Distinct := by
  show (st.trades.map (·.id)).Nodup
  rw [h.ids]
  exact List.Nodup.map e.uuid_injective List.nodup_range'

/-! ## Progress -/

/-- A trade is left alone or closed. -/
def Kept (P : TradeExit → Prop) (t u : RegisteredTrade) : Prop :=
  u = t ∨ (t.isOpen = true ∧ u.toTrade = t.toTrade ∧ ∃ exit, u.exit = some exit ∧ P exit)

/-- A trade that was not there before. -/
def Added (P : TradeExit → Prop) (Q : Trade → Prop) (u : RegisteredTrade) : Prop :=
  Q u.toTrade ∧ ∀ exit, u.exit = some exit → P exit

def Progress (P : TradeExit → Prop) (Q : Trade → Prop) (old new : List RegisteredTrade) : Prop :=
  ∃ (f : RegisteredTrade → RegisteredTrade) (added : List RegisteredTrade),
    new = old.map f ++ added ∧ (∀ t ∈ old, Kept P t (f t)) ∧ ∀ u ∈ added, Added P Q u

theorem Kept.trans {t u v : RegisteredTrade} (h : Kept P t u) (h' : Kept P u v) : Kept P t v := by
  rcases h with rfl | ⟨hopen, htrade, exit, hexit, hP⟩
  · exact h'
  · rcases h' with rfl | ⟨hopen', -⟩
    · exact .inr ⟨hopen, htrade, exit, hexit, hP⟩
    · simp [RegisteredTrade.isOpen, hexit] at hopen'

theorem Added.kept {u v : RegisteredTrade} (h : Added P Q u) (h' : Kept P u v) : Added P Q v := by
  rcases h' with rfl | ⟨-, htrade, exit, hexit, hP⟩
  · exact h
  · refine ⟨htrade ▸ h.1, fun exit' hexit' => ?_⟩
    rw [hexit] at hexit'
    cases hexit'
    exact hP

theorem Progress.refl (trades : List RegisteredTrade) : Progress P Q trades trades :=
  ⟨id, [], by simp, fun _ _ => .inl rfl, by simp⟩

theorem Progress.trans {old mid new : List RegisteredTrade} (h : Progress P Q old mid)
    (h' : Progress P Q mid new) : Progress P Q old new := by
  obtain ⟨f, added, rfl, hkept, hadded⟩ := h
  obtain ⟨g, added', rfl, hkept', hadded'⟩ := h'
  refine ⟨g ∘ f, added.map g ++ added', by simp, fun t ht => ?_, fun u hu => ?_⟩
  · exact (hkept t ht).trans (hkept' (f t) (by simp [List.mem_map_of_mem ht]))
  · rcases List.mem_append.mp hu with hu | hu
    · obtain ⟨t, ht, rfl⟩ := List.mem_map.mp hu
      exact (hadded t ht).kept (hkept' t (by simp [ht]))
    · exact hadded' u hu

theorem Progress.mono {old new : List RegisteredTrade} (h : Progress P Q old new)
    (hP : ∀ x, P x → P' x) (hQ : ∀ t, Q t → Q' t) : Progress P' Q' old new := by
  obtain ⟨f, added, hnew, hkept, hadded⟩ := h
  refine ⟨f, added, hnew, fun t ht => ?_, fun u hu => ?_⟩
  · rcases hkept t ht with heq | ⟨hopen, htrade, exit, hexit, hp⟩
    · exact .inl heq
    · exact .inr ⟨hopen, htrade, exit, hexit, hP _ hp⟩
  · exact ⟨hQ _ (hadded u hu).1, fun exit hexit => hP _ ((hadded u hu).2 exit hexit)⟩

theorem Progress.of_nil {new : List RegisteredTrade} (h : Progress P Q [] new) :
    ∀ u ∈ new, Added P Q u := by
  obtain ⟨f, added, rfl, -, hadded⟩ := h
  simpa using hadded

theorem Progress.filter_eq {old new : List RegisteredTrade} (h : Progress P Q old new)
    {good : TradeExit → Bool} (hgood : ∀ x, P x → good x = false) :
    new.filter (fun t => t.exit.any good) = old.filter (fun t => t.exit.any good) := by
  obtain ⟨f, added, rfl, hkept, hadded⟩ := h
  have hnone : added.filter (fun t => t.exit.any good) = [] := by
    rw [List.filter_eq_nil_iff]
    intro u hu hany
    obtain ⟨exit, hexit, hex⟩ := Option.any_eq_true _ _ |>.mp hany
    rw [hgood exit ((hadded u hu).2 exit hexit)] at hex
    cases hex
  have hsame : ∀ t ∈ old, f t = t ∨ ((f t).exit.any good = false ∧ t.exit.any good = false) := by
    intro t ht
    rcases hkept t ht with heq | ⟨hopen, -, exit, hexit, hP⟩
    · exact .inl heq
    · refine .inr ⟨by simp [hexit, hgood exit hP], ?_⟩
      have hnone : t.exit = none := by simpa [RegisteredTrade.isOpen] using hopen
      simp [hnone]
  rw [List.filter_append, hnone, List.append_nil]
  clear hkept hadded hnone
  induction old with
  | nil => rfl
  | cons t rest ih =>
    have hrest := ih fun u hu => hsame u (by simp [hu])
    rw [List.map_cons]
    rcases hsame t (by simp) with heq | ⟨hnew, hold⟩
    · rw [heq, List.filter_cons, List.filter_cons, hrest]
    · rw [List.filter_cons_of_neg (by simp [hnew]), List.filter_cons_of_neg (by simp [hold]), hrest]

/-! ## The operations of a bar -/

/-- Identifiers stay in order and the trades progress. -/
def Advances (e : Engine) (lo : ℕ) (P : TradeExit → Prop) (Q : Trade → Prop)
    (st st' : EngineState) : Prop :=
  Numbered e lo st → Numbered e lo st' ∧ Progress P Q st.trades st'.trades

theorem Advances.refl (st : EngineState) : Advances e lo P Q st st :=
  fun h => ⟨h, .refl _⟩

theorem Advances.trans (h : Advances e lo P Q st₁ st₂) (h' : Advances e lo P Q st₂ st₃) :
    Advances e lo P Q st₁ st₃ := by
  intro hst
  obtain ⟨hst₂, hprogress⟩ := h hst
  obtain ⟨hst₃, hprogress'⟩ := h' hst₂
  exact ⟨hst₃, hprogress.trans hprogress'⟩

theorem Advances.mono (h : Advances e lo P Q st₁ st₂) (hP : ∀ x, P x → P' x)
    (hQ : ∀ t, Q t → Q' t) : Advances e lo P' Q' st₁ st₂ :=
  fun hst => ⟨(h hst).1, (h hst).2.mono hP hQ⟩

/-- The same trades and the same number of identifiers. -/
theorem Advances.of_eq (htrades : st₂.trades = st₁.trades) (hdrawn : st₂.drawn = st₁.drawn) :
    Advances e lo P Q st₁ st₂ := by
  intro h
  refine ⟨⟨hdrawn ▸ h.lo_le, by rw [htrades, hdrawn, h.ids]⟩, ?_⟩
  rw [htrades]
  exact .refl _

/-- The trade that an order opens. -/
def OpenedBy (row : BarRow) (signals : List Signal) (t : Trade) : Prop :=
  t.entryTime = row.bar.openTime ∧ t.entryPrice = row.bar.open_ ∧
    ∃ signal ∈ signals, t.symbol = signal.symbol ∧
      t.action = if signal.action = .buy then .buy else .sell

section Operations

variable {time : Time} {price : ℚ} {reason : String} {row : BarRow}

theorem closeTrades_drawn (ids : List String) (st : EngineState) :
    (st.closeTrades e time price reason ids).drawn = st.drawn := by
  induction ids generalizing st with
  | nil => rfl
  | cons id rest ih =>
    refine (ih _).trans ?_
    unfold EngineState.closeTrade
    split
    · rfl
    · split <;> rfl

theorem closeTrades_advances (ids : List String)
    (hP : ∀ pnl, P { time, price, reason, pnl }) (st : EngineState) :
    Advances e lo P Q st (st.closeTrades e time price reason ids) := by
  intro h
  have htrades : (st.closeTrades e time price reason ids).trades =
      st.trades.map (closedIf e time price reason (· ∈ ids)) :=
    EngineState.closeTrades_trades h.distinct ids
  have hdrawn : (st.closeTrades e time price reason ids).drawn = st.drawn :=
    closeTrades_drawn ids st
  refine ⟨⟨hdrawn ▸ h.lo_le, ?_⟩, _, [], by rw [htrades, List.append_nil], ?_, by simp⟩
  · rw [htrades, hdrawn, ← h.ids, List.map_map]
    simp [Function.comp_def]
  · intro t _
    unfold closedIf
    split
    next hc => exact .inr ⟨hc.1, rfl, _, rfl, hP _⟩
    · exact .inl rfl

theorem closeAll_advances (hP : ∀ pnl, P { time, price, reason, pnl }) (st : EngineState) :
    Advances e lo P Q st (st.closeAll e time price reason) :=
  closeTrades_advances _ hP st

theorem executeExits_advances (hP : ∀ x : TradeExit, x.time = time → P x) (st : EngineState) :
    Advances e lo P Q st (st.executeExits e time price) := by
  unfold EngineState.executeExits
  generalize st.pendingExits = signals
  induction signals generalizing st with
  | nil => exact .refl st
  | cons signal rest ih =>
    refine Advances.trans ?_ (ih _)
    unfold EngineState.executeExit
    split
    · exact .refl st
    · exact closeTrades_advances _ (fun _ => hP _ rfl) st

theorem executeEntry_advances (signal : Signal) {signals : List Signal} (hmem : signal ∈ signals)
    (st : EngineState) :
    Advances e lo P (OpenedBy row signals) st
      (st.executeEntry e row.bar.openTime row.bar.open_ row signal) := by
  unfold EngineState.executeEntry
  split
  · exact .refl st
  next quantity _ =>
    intro h
    have hrange : List.range' lo (st.drawn + 1 - lo) =
        List.range' lo (st.drawn - lo) ++ [st.drawn] := by
      have hlo := h.lo_le
      rw [show st.drawn + 1 - lo = (st.drawn - lo) + 1 by omega, List.range'_concat]
      congr 2
      omega
    refine ⟨⟨h.lo_le.trans (Nat.le_succ _), ?_⟩, id, _, by rw [List.map_id], fun _ _ => .inl rfl, ?_⟩
    · rw [hrange, List.map_append, List.map_append, h.ids]
      rfl
    · rw [List.forall_mem_singleton]
      refine ⟨⟨rfl, rfl, signal, hmem, rfl, rfl⟩, ?_⟩
      intro exit hexit
      cases hexit

theorem executeEntries_advances (st : EngineState) :
    Advances e lo P (OpenedBy row st.pendingEntries) st
      (st.executeEntries e row.bar.openTime row.bar.open_ row) := by
  have hfold : ∀ (signals all : List Signal) (st : EngineState), (∀ s ∈ signals, s ∈ all) →
      Advances e lo P (OpenedBy row all) st
        (signals.foldl (EngineState.executeEntry e row.bar.openTime row.bar.open_ row) st) := by
    intro signals all
    induction signals with
    | nil =>
      intro st _
      exact .refl st
    | cons signal rest ih =>
      intro st hall
      exact (executeEntry_advances signal (hall signal (by simp)) st).trans
        (ih _ fun s hs => hall s (by simp [hs]))
  exact hfold _ _ st fun _ hs => hs

end Operations

/-! ## Bars and runs -/

section Loop

variable {S : Type} {strategy : TradingStrategy S} {s : S} {times : Option DayTradeTimes}
  {tradeStart : Option Time} {lastOfDay : Bool} {row : BarRow}

theorem queueSignals_ok {allowed : Bool} {st st' : EngineState}
    (h : queueSignals strategy s row allowed st = .ok st') :
    st'.trades = st.trades ∧ st'.drawn = st.drawn ∧
      (st'.pendingEntries = [] ∨ strategy.checkEntryConditions s row = .ok st'.pendingEntries) := by
  simp only [queueSignals, bind_eq_ok, pure_eq_ok] at h
  obtain ⟨exits, -, entries, hentries, rfl⟩ := h
  refine ⟨rfl, rfl, ?_⟩
  cases allowed with
  | true => exact .inr hentries
  | false =>
    cases hentries
    exact .inl rfl

/-- A bar before the start is skipped. Any other bar executes the queues at its own time and open,
and queues what the strategy says of it, if anything. -/
theorem stepBar_ok (lo : ℕ) {st st' : EngineState}
    (h : stepBar e strategy s times tradeStart lastOfDay row st = .ok st') :
    (tradeStart.any (row.bar.openTime < ·) = true ∧ st' = st) ∨
    (tradeStart.any (row.bar.openTime < ·) = false ∧
      Advances e lo (fun x => x.time = row.bar.openTime) (OpenedBy row st.pendingEntries) st st' ∧
      (st'.pendingEntries = [] ∨
        strategy.checkEntryConditions s row = .ok st'.pendingEntries)) := by
  have hexecuted : Advances e lo (fun x => x.time = row.bar.openTime)
      (OpenedBy row st.pendingEntries) st
      ((st.executeExits e row.bar.openTime row.bar.open_).executeEntries e row.bar.openTime
        row.bar.open_ row) := by
    have hexits : Advances e lo (fun x => x.time = row.bar.openTime)
        (OpenedBy row st.pendingEntries) st (st.executeExits e row.bar.openTime row.bar.open_) :=
      executeExits_advances (fun _ hx => hx) st
    refine hexits.trans ?_
    rw [← EngineState.executeExits_pendingEntries (e := e) st]
    exact executeEntries_advances _
  unfold stepBar at h
  dsimp only at h
  split at h
  next hskip =>
    cases h
    exact .inl ⟨hskip, rfl⟩
  next hskip =>
    refine .inr ⟨by simpa using hskip, ?_⟩
    split at h
    · obtain ⟨htrades, hdrawn, hqueue⟩ := queueSignals_ok h
      exact ⟨hexecuted.trans (.of_eq htrades hdrawn), hqueue⟩
    next t =>
      split at h
      · cases h
        exact ⟨(closeAll_advances (fun _ => rfl) st).trans (.of_eq rfl rfl), .inl rfl⟩
      · split at h
        · cases h
          refine ⟨hexecuted.trans ((closeAll_advances (fun _ => rfl) _).trans (.of_eq rfl rfl)), ?_⟩
          exact .inl rfl
        · obtain ⟨htrades, hdrawn, hqueue⟩ := queueSignals_ok h
          exact ⟨hexecuted.trans (.of_eq htrades hdrawn), hqueue⟩

/-- The open times of rows. -/
def rowTimes (rows : List BarRow) : List Time := rows.map (·.bar.openTime)

/-- A run over rows exits and enters at the times of these rows. -/
theorem runRows_advances {rows : List BarRow} {st st' : EngineState}
    (h : runRows e strategy s times tradeStart rows st = .ok st') :
    Advances e lo (·.time ∈ rowTimes rows) (·.entryTime ∈ rowTimes rows) st st' := by
  induction rows generalizing st with
  | nil =>
    cases h
    exact .refl _
  | cons row rest ih =>
    simp only [runRows, bind_eq_ok] at h
    obtain ⟨mid, hmid, hrest⟩ := h
    have hmem : row.bar.openTime ∈ rowTimes (row :: rest) := by simp [rowTimes]
    have htail : ∀ t, t ∈ rowTimes rest → t ∈ rowTimes (row :: rest) := by
      intro t ht
      simp only [rowTimes, List.map_cons, List.mem_cons]
      exact .inr ht
    refine Advances.trans ?_ ((ih hrest).mono (fun _ => htail _) (fun _ => htail _))
    rcases stepBar_ok lo hmid with ⟨-, rfl⟩ | ⟨-, hstep, -⟩
    · exact .refl _
    · refine hstep.mono ?_ ?_
      · rintro x hx
        exact hx ▸ hmem
      · rintro t ⟨ht, -⟩
        exact ht ▸ hmem

/-- The trade fills at the open of the row after the one whose signal it carries out. -/
def FillsAtNextOpen (strategy : TradingStrategy S) (s : S) (rows : List BarRow) (t : Trade) : Prop :=
  ∃ before signalRow fillRow after signals,
    rows = before ++ signalRow :: fillRow :: after ∧
    strategy.checkEntryConditions s signalRow = .ok signals ∧ OpenedBy fillRow signals t

/-- The entries queued after the rows `before` are those of the last of them. -/
def QueuedFrom (strategy : TradingStrategy S) (s : S) (tradeStart : Option Time)
    (before : List BarRow) (st : EngineState) : Prop :=
  st.pendingEntries = [] ∨ ∃ earlier row, before = earlier ++ [row] ∧
    tradeStart.any (row.bar.openTime < ·) = false ∧
    strategy.checkEntryConditions s row = .ok st.pendingEntries

/-- With rows in order of time, no row after a traded one is skipped. -/
theorem QueuedFrom.skip {before : List BarRow} {st : EngineState}
    (h : QueuedFrom strategy s tradeStart before st)
    (hsorted : ∀ r ∈ before, r.bar.openTime ≤ row.bar.openTime)
    (hskip : tradeStart.any (row.bar.openTime < ·) = true) : st.pendingEntries = [] := by
  rcases h with hnil | ⟨earlier, last, rfl, htraded, -⟩
  · exact hnil
  · obtain ⟨start, hstart, hlt⟩ := Option.any_eq_true _ _ |>.mp hskip
    have hle := hsorted last (by simp)
    have hlt' : last.bar.openTime < start := lt_of_le_of_lt hle (by simpa using hlt)
    rw [hstart] at htraded
    simp [hlt'] at htraded

theorem runRows_fills {before rest : List BarRow} {st st' : EngineState}
    (hsorted : (before ++ rest).Pairwise (fun a b => a.bar.openTime ≤ b.bar.openTime))
    (hqueue : QueuedFrom strategy s tradeStart before st)
    (h : runRows e strategy s times tradeStart rest st = .ok st') :
    Advances e lo (fun _ => True) (FillsAtNextOpen strategy s (before ++ rest)) st st' := by
  induction rest generalizing before st with
  | nil =>
    cases h
    exact .refl _
  | cons row rest ih =>
    simp only [runRows, bind_eq_ok] at h
    obtain ⟨mid, hmid, hrest⟩ := h
    have hbefore : ∀ r ∈ before, r.bar.openTime ≤ row.bar.openTime := fun r hr =>
      (List.pairwise_append.mp hsorted).2.2 r hr row (by simp)
    rw [List.append_cons] at hsorted ⊢
    have hnext : QueuedFrom strategy s tradeStart (before ++ [row]) mid := by
      rcases stepBar_ok lo hmid with ⟨hskip, rfl⟩ | ⟨htraded, -, hqueued⟩
      · exact .inl (hqueue.skip hbefore hskip)
      · rcases hqueued with hnil | hqueued
        · exact .inl hnil
        · exact .inr ⟨before, row, rfl, htraded, hqueued⟩
    have htail := ih hsorted hnext hrest
    refine Advances.trans ?_ htail
    rcases stepBar_ok lo hmid with ⟨-, rfl⟩ | ⟨-, hstep, -⟩
    · exact .refl _
    · refine hstep.mono (fun _ _ => trivial) fun t ht => ?_
      rcases hqueue with hnil | ⟨earlier, last, rfl, -, hsignals⟩
      · obtain ⟨-, -, signal, hmem, -⟩ := ht
        rw [hnil] at hmem
        cases hmem
      · exact ⟨earlier, last, row, rest, _, by simp, hsignals, ht⟩

end Loop

end QBackend.Backtesting
