import QBackend.DayTradeRuns

/-!
# The cap on positions and whole contracts

The engine sizes a queued entry, cuts it to what the sizer's cap leaves over the open trades of the
symbol, and opens the trade. The open quantity so never exceeds the cap of the fill. The sizers order
whole contracts, but a fixed quantity is a cap that need not be whole, and an order that is cut to
what such a cap leaves is filled at a fraction of a contract.
-/

namespace QBackend.Backtesting

open Execution FallibleSteps

/-- A positive number of contracts. -/
def WholeQuantity (q : ℚ) : Prop := ∃ n : ℕ, 0 < n ∧ q = n

/-! ## Whole orders -/

theorem whole_of_pos {q : ℚ} {k : ℤ} (hpos : 0 < q) (h : q = k) : WholeQuantity q := by
  subst h
  have hk : 0 < k := by exact_mod_cast hpos
  refine ⟨k.toNat, by omega, ?_⟩
  exact_mod_cast (Int.toNat_of_nonneg hk.le).symm

theorem scaled_whole {scale : Bool} {signal : Signal} {n : ℤ} {q : ℚ}
    (h : scaled scale signal n = some q) : ∃ k : ℤ, q = k := by
  unfold scaled at h
  split at h
  · cases h
  · split at h
    · split at h
      · cases h
      · cases h
        exact ⟨_, rfl⟩
    · cases h
      exact ⟨n, rfl⟩

theorem sizeSignal_whole {sizer : PositionSizer} {signal : Signal} {bar : SizingBar}
    {capital q : ℚ} (h : sizer.sizeSignal signal bar capital = some q) : WholeQuantity q := by
  have hpos : 0 < q := sizeSignal_pos h
  have hint : ∃ k : ℤ, q = k := by
    unfold PositionSizer.sizeSignal at h
    split at h
    · cases h
    · cases sizer with
      | fixedQuantity s =>
        have hfloor : ∀ x : ℚ, (if ⌊x⌋ ≤ 0 then none else some ((⌊x⌋ : ℤ) : ℚ)) = some q →
            ∃ k : ℤ, q = k := by
          intro x hx
          split at hx
          · cases hx
          · cases hx
            exact ⟨_, rfl⟩
        exact hfloor _ h
      | fixedSafetyMargin s => exact scaled_whole h
      | inverseVolatility s =>
        obtain ⟨n, -, hn⟩ := Option.bind_eq_some_iff.mp h
        exact scaled_whole hn
  obtain ⟨k, hk⟩ := hint
  exact whole_of_pos hpos hk

/-! ## Entry steps -/

section Steps

variable {S : Type} (e : Engine) (strategy : TradingStrategy S) (s : S)
  (times : Option DayTradeTimes) (tradeStart : Option Time)

/-- The loop over `rows` executes the entry `signal` on a row, in the state. -/
inductive EntryStep (rows : List BarRow) (st₀ : EngineState) :
    EngineState → BarRow → Signal → Prop
  | entry {done row rest st before signal after}
      (point : Visits e strategy s times tradeStart rows st₀ done (row :: rest) st)
      (traded : tradeStart.any (row.bar.openTime < ·) = false)
      (unclosed : ∀ t ∈ times, timeOfDay row.bar < t.close)
      (queue : st.pendingEntries = before ++ signal :: after) :
      EntryStep rows st₀
        (before.foldl (EngineState.executeEntry e row.bar.openTime row.bar.open_ row)
          (st.executeExits e row.bar.openTime row.bar.open_)) row signal

end Steps

section Caps

variable {e : Engine} {row : BarRow} {signal : Signal} {st st' : EngineState}

/-- The quantity open in the symbol is at most the cap at this fill. -/
def CapKept (e : Engine) (st : EngineState) (row : BarRow) (signal : Signal) : Prop :=
  ∀ q, st.entryQuantity e row.bar.open_ row signal = some q →
    ∀ cap, e.sizer.maxPositionSize row.bar.open_ st.capital = some cap →
      openQuantity (st.executeEntry e row.bar.openTime row.bar.open_ row signal).openTrades
        signal.symbol ≤ cap

/-- An order that is larger than what the cap leaves meets a whole cap. -/
def CutWhole (e : Engine) (st : EngineState) (row : BarRow) (signal : Signal) : Prop :=
  ∀ q cap, e.sizer.sizeSignal signal row.bar.open_ st.capital row = some q →
    e.sizer.maxPositionSize row.bar.open_ st.capital = some cap →
      0 < cap - openQuantity st.openTrades signal.symbol →
      cap - openQuantity st.openTrades signal.symbol < q → ∃ n : ℤ, cap = n

theorem executeEntry_openTrades {q : ℚ}
    (h : st.entryQuantity e row.bar.open_ row signal = some q) :
    openQuantity (st.executeEntry e row.bar.openTime row.bar.open_ row signal).openTrades
      signal.symbol = openQuantity st.openTrades signal.symbol + q := by
  have htrades : (st.executeEntry e row.bar.openTime row.bar.open_ row signal).openTrades =
      st.openTrades ++ [{ id := e.uuid st.drawn, symbol := signal.symbol
                          action := if signal.action = .buy then .buy else .sell
                          quantity := q, entryTime := row.bar.openTime
                          entryPrice := row.bar.open_
                          pointValue := (e.pointValues.lookup signal.symbol).getD 1 }] := by
    unfold EngineState.executeEntry
    rw [h]
    simp [EngineState.openTrades, RegisteredTrade.isOpen]
  rw [htrades, openQuantity_append, if_pos rfl]

/-- What is filled is what the sizer ordered or what the cap left. -/
theorem entryQuantity_cases {q : ℚ} (h : st.entryQuantity e row.bar.open_ row signal = some q) :
    ∃ order, e.sizer.sizeSignal signal row.bar.open_ st.capital row = some order ∧
      (e.sizer.maxPositionSize row.bar.open_ st.capital = none ∧ q = order ∨
        ∃ cap, e.sizer.maxPositionSize row.bar.open_ st.capital = some cap ∧
          0 < cap - openQuantity st.openTrades signal.symbol ∧
          q = if cap - openQuantity st.openTrades signal.symbol < order
            then cap - openQuantity st.openTrades signal.symbol else order) := by
  obtain ⟨order, horder, hcapped⟩ := Option.bind_eq_some_iff.mp h
  refine ⟨order, horder, ?_⟩
  unfold EngineState.capped at hcapped
  split at hcapped
  next hnone =>
    cases hcapped
    exact .inl ⟨hnone, rfl⟩
  next cap hcap =>
    split at hcapped
    · cases hcapped
    next hleft =>
      cases hcapped
      exact .inr ⟨cap, hcap, not_le.mp hleft, rfl⟩

theorem capKept (e : Engine) (st : EngineState) (row : BarRow) (signal : Signal) :
    CapKept e st row signal := by
  intro q hq cap hcap
  rw [executeEntry_openTrades hq]
  obtain ⟨order, -, ⟨hnone, -⟩ | ⟨cap', hcap', -, rfl⟩⟩ := entryQuantity_cases hq
  · rw [hnone] at hcap
    cases hcap
  · obtain rfl := Option.some.inj (hcap'.symm.trans hcap)
    split <;> linarith

theorem openQuantity_whole (h : ∀ t ∈ st.trades, WholeQuantity t.quantity) (symbol : String) :
    ∃ n : ℕ, openQuantity st.openTrades symbol = n := by
  have hopen : ∀ t ∈ st.openTrades, WholeQuantity t.quantity := by
    intro t ht
    obtain ⟨u, hu, rfl⟩ := List.mem_map.mp ht
    exact h u (List.mem_filter.mp hu).1
  generalize st.openTrades = trades at hopen
  induction trades with
  | nil => exact ⟨0, by simp [openQuantity]⟩
  | cons t rest ih =>
    obtain ⟨n, hn⟩ := ih fun u hu => hopen u (List.mem_cons_of_mem _ hu)
    obtain ⟨k, -, hk⟩ := hopen t List.mem_cons_self
    unfold openQuantity at hn ⊢
    by_cases hsymbol : t.symbol = symbol
    · refine ⟨k + n, ?_⟩
      rw [List.filter_cons_of_pos (by simpa using hsymbol), List.map_cons, List.sum_cons, hk, hn,
        Nat.cast_add]
    · refine ⟨n, ?_⟩
      rw [List.filter_cons_of_neg (by simpa using hsymbol), hn]

/-- Between whole trades, a fill is whole exactly when no order was cut to the rest of a cap that is
not whole. -/
theorem entryQuantity_whole_iff {sizer : PositionSizer} (hsizer : e.sizer = sizerOf sizer)
    (h : ∀ t ∈ st.trades, WholeQuantity t.quantity) :
    (∀ q, st.entryQuantity e row.bar.open_ row signal = some q → WholeQuantity q) ↔
      CutWhole e st row signal := by
  obtain ⟨n, hn⟩ := openQuantity_whole h signal.symbol
  constructor
  · intro hwhole q cap hq hcap hleft hcut
    have hfill : st.entryQuantity e row.bar.open_ row signal =
        some (cap - openQuantity st.openTrades signal.symbol) := by
      unfold EngineState.entryQuantity EngineState.capped
      rw [hq, hcap, Option.bind_some]
      dsimp only
      rw [if_neg (not_le.mpr hleft), if_pos hcut]
    obtain ⟨k, -, hk⟩ := hwhole _ hfill
    refine ⟨k + n, ?_⟩
    push_cast
    linarith
  · intro hcut q hq
    obtain ⟨order, horder, ⟨-, rfl⟩ | ⟨cap, hcap, hleft, rfl⟩⟩ := entryQuantity_cases hq
    · rw [hsizer] at horder
      exact sizeSignal_whole horder
    · split
      next hlt =>
        obtain ⟨k, hk⟩ := hcut order cap horder hcap hleft hlt
        refine whole_of_pos (k := k - n) hleft ?_
        push_cast
        linarith
      · rw [hsizer] at horder
        exact sizeSignal_whole horder

end Caps

/-! ## Trades that stay -/

section Kept

variable {e : Engine} {lo : ℕ} {P : TradeExit → Prop} {Q : Trade → Prop} {st st' st'' : EngineState}

/-- Every trade is still there, open or closed. -/
def KeepsTrades (st st' : EngineState) : Prop :=
  ∀ t ∈ st.trades, ∃ u ∈ st'.trades, u.toTrade = t.toTrade

theorem KeepsTrades.trans (h : KeepsTrades st st') (h' : KeepsTrades st' st'') :
    KeepsTrades st st'' := by
  intro t ht
  obtain ⟨u, hu, hut⟩ := h t ht
  obtain ⟨v, hv, hvu⟩ := h' u hu
  exact ⟨v, hv, hvu.trans hut⟩

theorem Advances.keepsTrades (h : Advances e lo P Q st st') (hnumbered : Numbered e lo st) :
    KeepsTrades st st' := by
  obtain ⟨-, f, added, htrades, hkept, -⟩ := h hnumbered
  intro t ht
  refine ⟨f t, ?_, ?_⟩
  · rw [htrades]
    exact List.mem_append_left _ (List.mem_map_of_mem ht)
  · obtain heq | ⟨-, htrade, -⟩ := hkept t ht
    · rw [heq]
    · exact htrade

/-- What holds of the trades that were there and of those that are new holds of all. -/
theorem Advances.all (h : Advances e lo P Q st st') (hnumbered : Numbered e lo st)
    (hst : ∀ t ∈ st.trades, Q t.toTrade) : ∀ t ∈ st'.trades, Q t.toTrade := by
  obtain ⟨-, f, added, htrades, hkept, hadded⟩ := h hnumbered
  intro t ht
  rw [htrades] at ht
  obtain ht | ht := List.mem_append.mp ht
  · obtain ⟨u, hu, rfl⟩ := List.mem_map.mp ht
    obtain heq | ⟨-, htrade, -⟩ := hkept u hu
    · rw [heq]
      exact hst u hu
    · rw [htrade]
      exact hst u hu
  · exact (hadded t ht).1

end Kept

/-! ## A loop -/

section Loop

variable {S : Type} {e : Engine} {strategy : TradingStrategy S} {s : S}
  {times : Option DayTradeTimes} {tradeStart : Option Time} {rows done rest : List BarRow}
  {row : BarRow} {signal : Signal} {lo : ℕ} {st₀ st st' : EngineState} {sizer : PositionSizer}

def WholeTrades (st : EngineState) : Prop := ∀ t ∈ st.trades, WholeQuantity t.quantity

theorem stepBar_executed {lastOfDay : Bool}
    (h : stepBar e strategy s times tradeStart lastOfDay row st = .ok st')
    (htraded : tradeStart.any (row.bar.openTime < ·) = false)
    (hunclosed : ∀ t ∈ times, timeOfDay row.bar < t.close) :
    Advances e lo (fun _ => True) (fun _ => False)
      ((st.executeExits e row.bar.openTime row.bar.open_).executeEntries e row.bar.openTime
        row.bar.open_ row) st' := by
  unfold stepBar at h
  dsimp only at h
  rw [if_neg (by rw [htraded]; exact Bool.false_ne_true)] at h
  cases times with
  | none =>
    obtain ⟨htrades, hdrawn, -⟩ := queueSignals_ok h
    exact .of_eq htrades hdrawn
  | some t =>
    dsimp only at h
    rw [if_neg (not_le.mpr (hunclosed t rfl))] at h
    split at h
    · cases h
      exact (closeAll_advances (fun _ => trivial) _).trans (clearPending_advances _)
    · obtain ⟨htrades, hdrawn, -⟩ := queueSignals_ok h
      exact .of_eq htrades hdrawn

theorem stepBar_idle {lastOfDay : Bool}
    (h : stepBar e strategy s times tradeStart lastOfDay row st = .ok st')
    (hidle : ¬ (tradeStart.any (row.bar.openTime < ·) = false ∧
      ∀ t ∈ times, timeOfDay row.bar < t.close)) :
    Advances e lo (fun _ => True) (fun _ => False) st st' := by
  unfold stepBar at h
  dsimp only at h
  split at h
  · cases h
    exact .refl st
  next hskip =>
    have htraded : tradeStart.any (row.bar.openTime < ·) = false := by simpa using hskip
    cases times with
    | none => exact absurd ⟨htraded, by simp⟩ hidle
    | some t =>
      dsimp only at h
      split at h
      · cases h
        exact (closeAll_advances (fun _ => trivial) st).trans (clearPending_advances _)
      next hopen => exact absurd ⟨htraded, by simpa using hopen⟩ hidle

theorem Visits.numbered (hstart : Numbered e lo st₀)
    (h : Visits e strategy s times tradeStart rows st₀ done rest st) : Numbered e lo st := by
  induction h with
  | start => exact hstart
  | bar before step ih =>
    obtain ⟨-, rfl⟩ | ⟨-, hadvances, -⟩ := stepBar_ok lo step
    · exact ih
    · exact (hadvances ih).1

theorem Visits.rest_ok (h : Visits e strategy s times tradeStart rows st₀ done rest st)
    (hrun : Backtesting.runRows e strategy s times tradeStart rows st₀ = .ok st') :
    Backtesting.runRows e strategy s times tradeStart rest st = .ok st' := by
  induction h with
  | start => exact hrun
  | bar before step ih =>
    simp only [Backtesting.runRows, bind_eq_ok] at ih
    obtain ⟨mid, hmid, hrest⟩ := ih
    rw [step] at hmid
    cases hmid
    exact hrest

theorem WholeTrades.advances {P : TradeExit → Prop} (h : WholeTrades st)
    (hadvances : Advances e lo P (fun _ => False) st st') (hnumbered : Numbered e lo st) :
    WholeTrades st' := by
  have hwhole : Advances e lo P (fun t => WholeQuantity t.quantity) st st' :=
    hadvances.mono (fun _ h => h) fun _ h => h.elim
  exact hwhole.all hnumbered h

theorem WholeTrades.of_kept (h : WholeTrades st') (hkept : KeepsTrades st st') : WholeTrades st := by
  intro t ht
  obtain ⟨u, hu, hut⟩ := hkept t ht
  have hwhole := h u hu
  rwa [hut] at hwhole

theorem executeEntry_whole_iff (h : WholeTrades st) :
    WholeTrades (st.executeEntry e row.bar.openTime row.bar.open_ row signal) ↔
      ∀ q, st.entryQuantity e row.bar.open_ row signal = some q → WholeQuantity q := by
  unfold EngineState.executeEntry
  cases hq : st.entryQuantity e row.bar.open_ row signal with
  | none => simpa using h
  | some q =>
    constructor
    · intro hwhole q' hq'
      cases hq'
      exact hwhole _ (List.mem_append_right _ (List.mem_singleton_self _))
    · intro hwhole t ht
      obtain ht | ht := List.mem_append.mp ht
      · exact h t ht
      · rw [List.mem_singleton.mp ht]
        exact hwhole q rfl

theorem executeEntries_whole (hsizer : e.sizer = sizerOf sizer) {signals : List Signal}
    (hst : WholeTrades st)
    (hcut : ∀ before signal after, signals = before ++ signal :: after →
      CutWhole e (before.foldl (EngineState.executeEntry e row.bar.openTime row.bar.open_ row) st)
        row signal) :
    WholeTrades
      (signals.foldl (EngineState.executeEntry e row.bar.openTime row.bar.open_ row) st) := by
  induction signals generalizing st with
  | nil => exact hst
  | cons signal rest ih =>
    refine ih ?_ fun before signal' after hrest => hcut (signal :: before) signal' after (by rw [hrest]; rfl)
    exact (executeEntry_whole_iff hst).mpr
      ((entryQuantity_whole_iff hsizer hst).mpr (hcut [] signal rest rfl))

theorem executeEntries_keeps (signals : List Signal) (hnumbered : Numbered e lo st) :
    Numbered e lo
        (signals.foldl (EngineState.executeEntry e row.bar.openTime row.bar.open_ row) st) ∧
      KeepsTrades st
        (signals.foldl (EngineState.executeEntry e row.bar.openTime row.bar.open_ row) st) := by
  induction signals generalizing st with
  | nil => exact ⟨hnumbered, fun t ht => ⟨t, ht, rfl⟩⟩
  | cons signal rest ih =>
    have hentry : Advances e lo (fun _ => True) (OpenedBy row [signal]) st
        (st.executeEntry e row.bar.openTime row.bar.open_ row signal) :=
      executeEntry_advances signal (List.mem_singleton_self _) st
    obtain ⟨hnum, hkept⟩ := ih (hentry hnumbered).1
    exact ⟨hnum, (hentry.keepsTrades hnumbered).trans hkept⟩

theorem Visits.whole (hsizer : e.sizer = sizerOf sizer) (hstart : Numbered e lo st₀)
    (hempty : st₀.trades = [])
    (hcut : ∀ st row signal, EntryStep e strategy s times tradeStart rows st₀ st row signal →
      CutWhole e st row signal)
    (h : Visits e strategy s times tradeStart rows st₀ done rest st) : WholeTrades st := by
  induction h with
  | start => simp [WholeTrades, hempty]
  | @bar done row rest st st' before step ih =>
    have hnumbered := before.numbered hstart
    by_cases hexecutes : tradeStart.any (row.bar.openTime < ·) = false ∧
        ∀ t ∈ times, timeOfDay row.bar < t.close
    · obtain ⟨htraded, hunclosed⟩ := hexecutes
      have hexits : Advances e lo (fun _ => True) (fun _ => False) st
          (st.executeExits e row.bar.openTime row.bar.open_) :=
        executeExits_advances (fun _ _ => trivial) st
      have hentries : WholeTrades ((st.executeExits e row.bar.openTime
          row.bar.open_).executeEntries e row.bar.openTime row.bar.open_ row) := by
        unfold EngineState.executeEntries
        rw [EngineState.executeExits_pendingEntries]
        refine executeEntries_whole hsizer (ih.advances hexits hnumbered) ?_
        intro earlier signal after hqueue
        exact hcut _ _ _ (.entry before htraded hunclosed hqueue)
      exact hentries.advances (stepBar_executed step htraded hunclosed)
        (executeEntries_keeps _ (hexits hnumbered).1).1
    · exact ih.advances (stepBar_idle step hexecutes) hnumbered

/-- A run over rows opens whole trades exactly when no order is cut to the rest of a cap that is not
whole. -/
theorem runRows_whole_iff (hsizer : e.sizer = sizerOf sizer) (hstart : Numbered e lo st₀)
    (hempty : st₀.trades = [])
    (hrun : Backtesting.runRows e strategy s times tradeStart rows st₀ = .ok st') :
    WholeTrades st' ↔ ∀ st row signal,
      EntryStep e strategy s times tradeStart rows st₀ st row signal → CutWhole e st row signal := by
  constructor
  · intro hwhole st row signal hstep
    obtain @⟨done, row, rest, st, before, signal, after, point, htraded, hunclosed, hqueue⟩ := hstep
    have hnumbered := point.numbered hstart
    have hexits : Advances e lo (fun _ => True) (fun _ => True) st
        (st.executeExits e row.bar.openTime row.bar.open_) :=
      executeExits_advances (fun _ _ => trivial) st
    obtain ⟨hnum, -⟩ := executeEntries_keeps before (hexits hnumbered).1
    obtain ⟨hnum', hentry⟩ := executeEntries_keeps [signal] hnum
    obtain ⟨hnum'', hafter⟩ := executeEntries_keeps after hnum'
    have hsplit : (st.executeExits e row.bar.openTime row.bar.open_).executeEntries e
        row.bar.openTime row.bar.open_ row = after.foldl
          (EngineState.executeEntry e row.bar.openTime row.bar.open_ row) ([signal].foldl
            (EngineState.executeEntry e row.bar.openTime row.bar.open_ row) (before.foldl
              (EngineState.executeEntry e row.bar.openTime row.bar.open_ row)
                (st.executeExits e row.bar.openTime row.bar.open_))) := by
      unfold EngineState.executeEntries
      rw [EngineState.executeExits_pendingEntries, hqueue, List.foldl_append, List.foldl_cons]
      rfl
    have hrest := point.rest_ok hrun
    simp only [Backtesting.runRows, bind_eq_ok] at hrest
    obtain ⟨mid, hmid, hrest⟩ := hrest
    have hclose : Advances e lo (fun _ => True) (fun _ => False) _ mid :=
      stepBar_executed hmid htraded hunclosed
    rw [hsplit] at hclose
    have hmid' : Numbered e lo mid := (hclose hnum'').1
    have hlater : KeepsTrades mid st' := (runRows_advances hrest).keepsTrades hmid'
    have hkept : KeepsTrades _ st' := hafter.trans ((hclose.keepsTrades hnum'').trans hlater)
    have hfilled := hwhole.of_kept hkept
    have hbefore := hfilled.of_kept hentry
    exact (entryQuantity_whole_iff hsizer hbefore).mp ((executeEntry_whole_iff hbefore).mp hfilled)
  · intro hcut
    have hfirst : Visits e strategy s times tradeStart rows st₀ [] rows st₀ := .start
    exact (hfirst.runRows hrun).whole hsizer hstart hempty hcut

end Loop

/-! ## Whole runs -/

section Run

variable {S : Type} (e : Engine) (strategy : TradingStrategy S) (mode : ParallelMode)
  (tradeStart : Option Time) (s : S) (bars : List Bar)

/-- The run loops over the chunk and starts it in the session. -/
def StartsChunk (chunk : List Bar) (session : Session S) : Prop :=
  bars ≠ [] ∧ match mode with
    | .sequential => chunk = bars ∧ session = { strategy := s }
    | .dayTrade => ∃ before after acc, dailyChunks bars = before ++ chunk :: after ∧
        before.foldlM (runChunk e strategy tradeStart) ([], { strategy := s }) = .ok acc ∧
        session = acc.2

/-- The chunk executes the entry `signal` on the row, in the state. -/
def ChunkEntry (chunk : List Bar) (session : Session S) (st : EngineState) (row : BarRow)
    (signal : Signal) : Prop :=
  ∃ s' frame times, augmentIndicatorFrame strategy session.strategy chunk = (s', .ok frame) ∧
    e.times = .ok times ∧
    EntryStep e strategy s' times tradeStart frame.rows (startState e session) st row signal

/-- The run executes the entry `signal` on the row, in the state. -/
def RunEntry (st : EngineState) (row : BarRow) (signal : Signal) : Prop :=
  ∃ chunk session, StartsChunk e strategy mode tradeStart s bars chunk session ∧
    ChunkEntry e strategy tradeStart chunk session st row signal

variable {e strategy mode tradeStart s bars} {sizer : PositionSizer}

theorem runSingleChunk_whole_iff (hsizer : e.sizer = sizerOf sizer) {force : Bool}
    {chunk : List Bar} {session session₁ : Session S} {trades : List RegisteredTrade}
    (h : runSingleChunk e strategy tradeStart force chunk session = .ok (trades, session₁)) :
    (∀ t ∈ trades, WholeQuantity t.quantity) ↔ ∀ st row signal,
      ChunkEntry e strategy tradeStart chunk session st row signal → CutWhole e st row signal := by
  obtain ⟨s', frame, times, st, haugment, htimes, hrows, rfl, -⟩ := runSingleChunk_ok h
  have hstart := (startState_within e session []).numbered
  have hloop := runRows_whole_iff hsizer hstart rfl hrows
  have hend : Numbered e session.drawn st := (runRows_advances hrows hstart).1
  have hforce : (∀ t ∈ (if force then forceClose e frame.bars st else st).trades,
      WholeQuantity t.quantity) ↔ WholeTrades st := by
    cases force with
    | false => exact Iff.rfl
    | true =>
      have hclose : Advances e session.drawn _ (fun _ => False) st (forceClose e frame.bars st) :=
        forceClose_advances _ st
      exact ⟨fun hwhole => WholeTrades.of_kept hwhole (hclose.keepsTrades hend),
        fun hwhole => hwhole.advances hclose hend⟩
  rw [hforce, hloop]
  constructor
  · rintro hcut st row signal ⟨s'', frame', times', haugment', htimes', hstep⟩
    rw [haugment] at haugment'
    rw [htimes] at htimes'
    cases haugment'
    cases htimes'
    exact hcut st row signal hstep
  · intro hcut st row signal hstep
    exact hcut st row signal ⟨s', frame, times, haugment, htimes, hstep⟩

/-- The trades of the days are those of their chunks. -/
theorem runDays_chunks {chunks : List (List Bar)} {acc acc' : List RegisteredTrade × Session S}
    (hacc : Merged e acc) (h : chunks.foldlM (runChunk e strategy tradeStart) acc = .ok acc') :
    (∀ t ∈ acc'.1, t ∈ acc.1 ∨ ∃ before chunk after mid trades session,
      chunks = before ++ chunk :: after ∧
      before.foldlM (runChunk e strategy tradeStart) acc = .ok mid ∧
      runSingleChunk e strategy tradeStart true chunk mid.2 = .ok (trades, session) ∧
      t ∈ trades) ∧ (∀ t ∈ acc.1, t ∈ acc'.1) ∧
    ∀ before chunk after mid, chunks = before ++ chunk :: after →
      before.foldlM (runChunk e strategy tradeStart) acc = .ok mid →
      ∃ trades session, runSingleChunk e strategy tradeStart true chunk mid.2 =
        .ok (trades, session) ∧ ∀ t ∈ trades, t ∈ acc'.1 := by
  induction chunks generalizing acc with
  | nil =>
    cases h
    refine ⟨fun t ht => .inl ht, fun t ht => ht, ?_⟩
    intro before chunk after mid hnil
    simp at hnil
  | cons chunk rest ih =>
    simp only [List.foldlM_cons, bind_eq_ok] at h
    obtain ⟨mid, hmid, hrest⟩ := h
    obtain ⟨trades, hchunk, happend, hmerged⟩ := runChunk_appends hacc hmid
    obtain ⟨hfrom, hkeep, hto⟩ := ih hmerged hrest
    refine ⟨fun t ht => ?_, fun t ht => hkeep t (by rw [happend]; exact List.mem_append_left _ ht), ?_⟩
    · obtain ht | ⟨before, chunk', after, mid', trades', session, rfl, hbefore, hchunk', ht⟩ :=
        hfrom t ht
      · rw [happend] at ht
        obtain ht | ht := List.mem_append.mp ht
        · exact .inl ht
        · exact .inr ⟨[], chunk, rest, acc, trades, mid.2, rfl, rfl, hchunk, ht⟩
      · refine .inr ⟨chunk :: before, chunk', after, mid', trades', session, rfl, ?_, hchunk', ht⟩
        simp only [List.foldlM_cons, bind_eq_ok]
        exact ⟨mid, hmid, hbefore⟩
    · intro before chunk' after mid' hsplit hbefore
      cases before with
      | nil =>
        cases hsplit
        cases hbefore
        refine ⟨trades, mid.2, hchunk, fun t ht => hkeep t ?_⟩
        rw [happend]
        exact List.mem_append_right _ ht
      | cons first before =>
        cases hsplit
        simp only [List.foldlM_cons, bind_eq_ok] at hbefore
        obtain ⟨mid'', hmid'', hbefore⟩ := hbefore
        rw [hmid] at hmid''
        cases hmid''
        exact hto before chunk' after mid' rfl hbefore

theorem run_chunks {trades : List RegisteredTrade}
    (h : run e strategy mode tradeStart s bars = .ok trades) :
    (∀ t ∈ trades, ∃ chunk session chunkTrades session',
      StartsChunk e strategy mode tradeStart s bars chunk session ∧
      runSingleChunk e strategy tradeStart (mode = .dayTrade) chunk session =
        .ok (chunkTrades, session') ∧ t ∈ chunkTrades) ∧
    ∀ chunk session, StartsChunk e strategy mode tradeStart s bars chunk session →
      ∃ chunkTrades session', runSingleChunk e strategy tradeStart (mode = .dayTrade) chunk
        session = .ok (chunkTrades, session') ∧ ∀ t ∈ chunkTrades, t ∈ trades := by
  unfold run at h
  split at h
  next hnil =>
    cases h
    exact ⟨by simp, fun chunk session hstarts => absurd hnil hstarts.1⟩
  next hne =>
    cases mode with
    | sequential =>
      simp only [bind_eq_ok, pure_eq_ok] at h
      obtain ⟨⟨result, session⟩, hchunk, rfl⟩ := h
      refine ⟨fun t ht => ⟨bars, _, _, _, ⟨hne, rfl, rfl⟩, hchunk, ht⟩, ?_⟩
      rintro chunk session' ⟨-, rfl, rfl⟩
      exact ⟨_, _, hchunk, fun t ht => ht⟩
    | dayTrade =>
      simp only [bind_eq_ok, pure_eq_ok] at h
      obtain ⟨acc, hfold, rfl⟩ := h
      have hmerged : Merged e (([], { strategy := s }) : List RegisteredTrade × Session S) := rfl
      obtain ⟨hfrom, -, hto⟩ := runDays_chunks hmerged hfold
      refine ⟨fun t ht => ?_, ?_⟩
      · obtain hnil | ⟨before, chunk, after, mid, trades, session, hdays, hbefore, hchunk, ht⟩ :=
          hfrom t ht
        · cases hnil
        · exact ⟨chunk, mid.2, trades, session, ⟨hne, before, after, mid, hdays, hbefore, rfl⟩,
            hchunk, ht⟩
      · rintro chunk session ⟨-, before, after, mid, hdays, hbefore, rfl⟩
        exact hto before chunk after mid hdays hbefore

/-- In every run the open quantity of the symbol is within the cap right after each entry fill, and
all trades are positive whole numbers of contracts, exactly when no entry of the run is cut to the
rest of a cap that is not whole. -/
theorem run_capped_and_whole_iff (hsizer : e.sizer = sizerOf sizer)
    {trades : List RegisteredTrade} (h : run e strategy mode tradeStart s bars = .ok trades) :
    ((∀ st row signal, RunEntry e strategy mode tradeStart s bars st row signal →
        CapKept e st row signal) ∧ ∀ t ∈ trades, WholeQuantity t.quantity) ↔
      ∀ st row signal, RunEntry e strategy mode tradeStart s bars st row signal →
        CutWhole e st row signal := by
  obtain ⟨hfrom, hto⟩ := run_chunks h
  constructor
  · rintro ⟨-, hwhole⟩ st row signal ⟨chunk, session, hstarts, hentry⟩
    obtain ⟨chunkTrades, session', hchunk, hmem⟩ := hto chunk session hstarts
    exact (runSingleChunk_whole_iff hsizer hchunk).mp (fun t ht => hwhole t (hmem t ht)) st row
      signal hentry
  · intro hcut
    refine ⟨fun st row signal _ => capKept e st row signal, fun t ht => ?_⟩
    obtain ⟨chunk, session, chunkTrades, session', hstarts, hchunk, hmem⟩ := hfrom t ht
    refine (runSingleChunk_whole_iff hsizer hchunk).mpr ?_ t hmem
    intro st row signal hentry
    exact hcut st row signal ⟨chunk, session, hstarts, hentry⟩

end Run

/-! ## One contract and a half -/

def risingBars : List Bar := [minuteBar 0 10 11, minuteBar 1 12 13, minuteBar 2 14 15]

/-- A fixed quantity of one contract is a whole cap. -/
theorem unitEngine_whole :
    ∃ trades, run unitEngine momentumStrategy .sequential none () momentumBars = .ok trades ∧
      trades.length = 2 ∧ ∀ t ∈ trades, WholeQuantity t.quantity := by
  have hcount : (run unitEngine momentumStrategy .sequential none () momentumBars).toOption.map
      List.length = some 2 := by
    decide +kernel
  obtain ⟨trades, htrades, hlength⟩ := Option.map_eq_some_iff.mp hcount
  have hrun := eq_ok_of_toOption htrades
  refine ⟨trades, hrun, hlength, ((run_capped_and_whole_iff rfl hrun).mpr ?_).2⟩
  intro st row signal _ q cap _ hcap _ _
  cases hcap
  exact ⟨1, rfl⟩

def fractionEngine : Engine :=
  { unitEngine with
    sizer := sizerOf (.fixedQuantity { quantity := 3 / 2, quantity_pos := by decide +kernel }) }

/-- The second entry is cut to the half contract that the cap leaves. -/
theorem fractionEngine_half_contract :
    ∃ trades, run fractionEngine momentumStrategy .sequential none () risingBars = .ok trades ∧
      trades.map (·.quantity) = [1, 1 / 2] ∧ ¬ ∀ t ∈ trades, WholeQuantity t.quantity := by
  have hquantities : (run fractionEngine momentumStrategy .sequential none ()
      risingBars).toOption.map (fun trades => trades.map (·.quantity)) = some [1, 1 / 2] := by
    decide +kernel
  obtain ⟨trades, htrades, hlist⟩ := Option.map_eq_some_iff.mp hquantities
  refine ⟨trades, eq_ok_of_toOption htrades, hlist, fun hwhole => ?_⟩
  have hhalf : (1 / 2 : ℚ) ∈ trades.map (·.quantity) := by
    rw [hlist]
    simp
  obtain ⟨t, ht, hq⟩ := List.mem_map.mp hhalf
  obtain ⟨n, hn, htn⟩ := hwhole t ht
  rw [hq] at htn
  have htwo : (1 : ℚ) = 2 * n := by linarith
  have hnat : 1 = 2 * n := by exact_mod_cast htwo
  omega

end QBackend.Backtesting
