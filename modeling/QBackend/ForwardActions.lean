import QBackend.BacktestEngine
import QBackend.LiveSizing
import QBackend.PendingFlattens

/-!
# Forward decisions against the engine

The engine executes all queued exits and then all queued entries of a bar. The live path condenses
the same two lists to one action and one order on the net position, and a pending exit hides a
pending entry.
-/

namespace QBackend.Backtesting

open Execution FallibleSteps

/-! ## The strategies of the repository -/

/-- What one strategy class differs in from another. Every `check_entry_conditions` gives at most
one signal, a BUY before a SELL, and every `check_exit_conditions` gives a CLOSE for each open trade
of the strategy's symbol whose trigger is set. -/
structure BarRules (S : Type) where
  symbol : String
  computeIndicators : S → List Bar → S × Except ExecutionError IndicatorFrame
  enters : S → BarRow → Option (ExecutionSide × ℚ)
  exits : S → BarRow → Trade → Bool
  exitParams : ExitParams := {}
  sizeSignal : Signal → BarRow → Except ExecutionError (Option ℚ)

variable {S : Type}

def entryAction : ExecutionSide → SignalAction
  | .buy => .buy
  | .sell => .sell

def BarRules.strategy (rules : BarRules S) : TradingStrategy S where
  computeIndicators := rules.computeIndicators
  checkEntryConditions s row := .ok ((rules.enters s row).toList.map
    fun (side, strength) => { symbol := rules.symbol, action := entryAction side, strength })
  checkExitConditions s row trades :=
    .ok ((trades.filter fun t => t.symbol = rules.symbol ∧ rules.exits s row t).map
      fun _ => { symbol := rules.symbol, action := .close })
  exitParams := rules.exitParams
  sizeSignal := rules.sizeSignal

/-- The checks of `MACrossoverStrategy`, which read two precomputed columns. -/
def maCrossoverRules (symbol : String) : BarRules Unit where
  symbol
  computeIndicators s bars := (s, .ok { bars })
  enters _ row :=
    if row.get "buy_signal" = some 1 then some (.buy, 1)
    else if row.get "sell_signal" = some 1 then some (.sell, 1) else none
  exits _ row trade :=
    (trade.action = .buy ∧ row.get "sell_signal" = some 1) ∨
      (trade.action = .sell ∧ row.get "buy_signal" = some 1)
  sizeSignal _ _ := .ok (some 1)

theorem checkExits_close {p : ExitParams} {trades : List Trade} {row : BarRow} {x : ExitState}
    {symbol : String} (htrades : ∀ t ∈ trades, t.symbol = symbol) :
    ∀ signal ∈ (checkExits p trades row x).2, signal.action = .close ∧ signal.symbol = symbol := by
  have hrules : ∀ (t : Trade) (rules : List ExitRuleId) (x : ExitState),
      t.symbol = symbol → ∀ signal ∈ (checkRules p row t rules x).2,
        signal.action = .close ∧ signal.symbol = symbol := by
    intro t rules
    induction rules with
    | nil =>
      intro x _ signal hmem
      simp [checkRules] at hmem
    | cons rule rest ih =>
      intro x ht signal hmem
      simp only [checkRules] at hmem
      split at hmem
      · cases hmem
        exact ⟨rfl, ht⟩
      · exact ih _ ht signal hmem
  unfold checkExits
  generalize pruneStaleState trades x = x
  induction trades generalizing x with
  | nil => simp [checkTrades]
  | cons t rest ih =>
    intro signal hmem
    simp only [checkTrades, List.mem_append, Option.mem_toList] at hmem
    rcases hmem with hmem | hmem
    · exact hrules t _ _ (htrades t (by simp)) signal hmem
    · exact ih (fun u hu => htrades u (by simp [hu])) _ signal hmem

/-- The lists that `evaluate_queued_signals` can return. -/
structure Queued (symbol : String) (exits entries : List Signal) : Prop where
  exits_close : ∀ signal ∈ exits, signal.action = .close ∧ signal.symbol = symbol
  entries_one : entries = [] ∨ ∃ side strength,
    entries = [{ symbol, action := entryAction side, strength }]

theorem evaluateQueuedSignals_queued {rules : BarRules S} {s : S} {x x' : ExitState} {row : BarRow}
    {trades : List Trade} {exits entries : List Signal}
    (htrades : ∀ t ∈ trades, t.symbol = rules.symbol)
    (h : evaluateQueuedSignals rules.strategy s x row trades = (x', .ok (exits, entries))) :
    Queued rules.symbol exits entries := by
  simp only [evaluateQueuedSignals, BarRules.strategy, Prod.mk.injEq, bind_eq_ok, pure_eq_ok,
    Except.ok.injEq] at h
  obtain ⟨-, _, rfl, _, rfl, rfl, rfl⟩ := h
  constructor
  · intro signal hmem
    rcases List.mem_append.mp hmem with hmem | hmem
    · exact checkExits_close htrades signal hmem
    · obtain ⟨t, -, rfl⟩ := List.mem_map.mp hmem
      exact ⟨rfl, rfl⟩
  · cases henter : rules.enters s row with
    | none => exact .inl rfl
    | some enter => exact .inr ⟨enter.1, enter.2, rfl⟩

/-! ## The net position of the engine -/

/-- The signed quantity of the open trades of a symbol. -/
def EngineState.netPosition (st : EngineState) (symbol : String) : ℚ :=
  ((st.trades.filter (fun t => t.isOpen ∧ t.symbol = symbol)).map RegisteredTrade.signed).sum

theorem netPosition_of_closed {st : EngineState} {symbol : String}
    (h : ∀ t ∈ st.trades, t.isOpen = true → t.symbol ≠ symbol) : st.netPosition symbol = 0 := by
  unfold EngineState.netPosition
  rw [List.filter_eq_nil_iff.mpr]
  · rfl
  · intro t ht hc
    simp only [decide_eq_true_eq] at hc
    exact h t ht hc.1 hc.2

section Execution

variable {e : Engine} {time : Time} {price : ℚ} {row : BarRow} {symbol : String} {st : EngineState}
  {exits entries : List Signal}

theorem executeExit_closed (h : st.Distinct) {signal : Signal} (hclose : signal.action = .close)
    (hsymbol : signal.symbol = symbol) :
    ∀ t ∈ (st.executeExit e time price signal).trades, t.isOpen = true → t.symbol ≠ symbol := by
  intro t ht hopen heq
  unfold EngineState.executeExit at ht
  rw [if_neg (by simp [hclose]), EngineState.closeTrades_trades h] at ht
  obtain ⟨u, hu, rfl⟩ := List.mem_map.mp ht
  unfold closedIf at hopen heq
  split at hopen
  · simp at hopen
  next hkept =>
    rw [if_neg hkept] at heq
    refine hkept ⟨hopen, List.mem_map.mpr ⟨u.toTrade, ?_, rfl⟩⟩
    refine List.mem_filter.mpr ⟨List.mem_map.mpr ⟨u, List.mem_filter.mpr ⟨hu, hopen⟩, rfl⟩, ?_⟩
    simpa [hsymbol] using heq

theorem executeExit_distinct (h : st.Distinct) (signal : Signal) :
    (st.executeExit e time price signal).Distinct := by
  unfold EngineState.executeExit
  split
  · exact h
  · exact h.closeTrades _

theorem executeExit_open (h : st.Distinct) {signal : Signal} {t : RegisteredTrade}
    (ht : t ∈ (st.executeExit e time price signal).trades) (hopen : t.isOpen = true) :
    t ∈ st.trades := by
  unfold EngineState.executeExit at ht
  split at ht
  · exact ht
  · rw [EngineState.closeTrades_trades h] at ht
    obtain ⟨u, hu, rfl⟩ := List.mem_map.mp ht
    unfold closedIf at hopen ⊢
    split at hopen
    · simp at hopen
    next hkept =>
      rw [if_neg hkept]
      exact hu

theorem netPosition_executeExits (h : st.Distinct) (hqueue : st.pendingExits ≠ [])
    (hexits : ∀ signal ∈ st.pendingExits, signal.action = .close ∧ signal.symbol = symbol) :
    (st.executeExits e time price).netPosition symbol = 0 := by
  have hkeep : ∀ (signals : List Signal) (st : EngineState), st.Distinct →
      (∀ t ∈ st.trades, t.isOpen = true → t.symbol ≠ symbol) →
      ∀ t ∈ (signals.foldl (EngineState.executeExit e time price) st).trades, t.isOpen = true →
        t.symbol ≠ symbol := by
    intro signals
    induction signals with
    | nil =>
      intro st _ hst
      exact hst
    | cons signal rest ih =>
      intro st hd hst
      refine ih _ (executeExit_distinct hd signal) fun t ht hopen => ?_
      exact hst t (executeExit_open hd ht hopen) hopen
  refine netPosition_of_closed ?_
  unfold EngineState.executeExits
  cases hpending : st.pendingExits with
  | nil => exact absurd hpending hqueue
  | cons signal rest =>
    obtain ⟨hclose, hsymbol⟩ := hexits signal (by simp [hpending])
    exact hkeep rest _ (executeExit_distinct h signal) (executeExit_closed h hclose hsymbol)

theorem executeEntries_of_queued (st : EngineState) :
    (st.executeExits e time price).executeEntries e time price row =
      st.pendingEntries.foldl (EngineState.executeEntry e time price row)
        (st.executeExits e time price) := by
  rw [EngineState.executeEntries, EngineState.executeExits_pendingEntries]

theorem netPosition_executeEntry {side : ExecutionSide} {strength : ℚ} :
    (st.executeEntry e time price row
      { symbol, action := entryAction side, strength }).netPosition symbol =
    st.netPosition symbol +
      ((st.entryQuantity e price row { symbol, action := entryAction side, strength }).elim 0
        (signedQuantity side)) := by
  unfold EngineState.executeEntry
  cases st.entryQuantity e price row { symbol, action := entryAction side, strength } with
  | none => simp
  | some quantity =>
    cases side <;>
      simp [EngineState.netPosition, RegisteredTrade.isOpen, RegisteredTrade.signed, entryAction,
        signedQuantity]

theorem entryQuantity_pos {signal : Signal} {q : ℚ}
    (h : st.entryQuantity e price row signal = some q) : 0 < q := by
  obtain ⟨size, hsize, hcapped⟩ := Option.bind_eq_some_iff.mp h
  have hpos := e.sizer.size_pos hsize
  unfold EngineState.capped at hcapped
  split at hcapped
  · cases hcapped
    exact hpos
  · split at hcapped
    · cases hcapped
    next hleft =>
      cases hcapped
      split
      · exact not_le.mp hleft
      · exact hpos

end Execution

/-! ## The live path -/

/-- The order of an action, filled whole. -/
def carryOut (action : SignalAction) (requested : Option ℚ) (price : ℚ) (h : Holding) :
    Except ExecutionError Holding :=
  match mapSignalToOrder action h.side h.quantity requested with
  | none => .ok h
  | some (side, quantity) => do
    let t ← transitionPosition h side quantity price
    return t.holding

/-- The decision of the evaluator on the queued signals, when `size` is the sizer. -/
def forwardPosition (exits entries : List Signal) (size : Signal → Option ℚ) (price : ℚ)
    (h : Holding) : Except ExecutionError Holding :=
  let action := (domainActionFromQueued exits entries).1
  let requested := match entries with
    | entry :: _ => if action = .buy ∨ action = .sell then size entry else none
    | [] => none
  carryOut action requested price h

theorem transitionPosition_returns {h : Holding} (hh : 0 ≤ h.quantity) (side : ExecutionSide)
    {q : ℚ} (hq : 0 < q) (price : ℚ) : ∃ t, transitionPosition h side q price = .ok t := by
  unfold transitionPosition
  dsimp only
  split
  · exact ⟨_, rfl⟩
  next hopen =>
    obtain ⟨hside, -⟩ := not_or.mp hopen
    split
    · rw [if_neg (by linarith)]
      exact ⟨_, rfl⟩
    next hadd =>
      rw [if_neg]
      · split
        · split
          · exact ⟨_, rfl⟩
          · exact ⟨_, rfl⟩
        · exact ⟨_, rfl⟩
      · revert hadd hside
        cases h.side <;> cases side <;> simp [isSameSideAdd, isReducing]

theorem carryOut_close {h : Holding} (hh : 0 ≤ h.quantity) (price : ℚ) :
    ∃ h', carryOut .close none price h = .ok h' ∧ h'.signed = 0 := by
  unfold carryOut
  cases hmap : mapSignalToOrder .close h.side h.quantity none with
  | none =>
    refine ⟨h, rfl, ?_⟩
    rcases isFlat_iff_mapSignalToOrder.mpr hmap with hside | hquantity
    · simp [Holding.signed, hside]
    · have hzero : h.quantity = 0 := le_antisymm hquantity hh
      unfold Holding.signed
      split <;> simp [hzero]
  | some order =>
    obtain ⟨side, quantity⟩ := order
    have hq : 0 < quantity := mapSignalToOrder_pos hmap
    obtain ⟨t, ht⟩ := transitionPosition_returns hh side hq price
    refine ⟨t.holding, ?_, ?_⟩
    · simp only [ht]
      rfl
    · rw [transitionPosition_flattens hmap ht]
      rfl

theorem carryOut_entry {h : Holding} (hh : 0 ≤ h.quantity) (side : ExecutionSide)
    {requested : Option ℚ} (hpos : ∀ q ∈ requested, 0 < q) (price : ℚ) :
    ∃ h', carryOut (entryAction side) requested price h = .ok h' ∧
      h'.signed = h.signed + requested.elim 0 (signedQuantity side) := by
  unfold carryOut
  cases requested with
  | none =>
    refine ⟨h, ?_, by simp⟩
    cases side <;> rfl
  | some q =>
    have hq := hpos q rfl
    have hmap : mapSignalToOrder (entryAction side) h.side h.quantity (some q) = some (side, q) := by
      cases side <;> simp [mapSignalToOrder, entryAction, not_le.mpr hq]
    obtain ⟨t, ht⟩ := transitionPosition_returns hh side hq price
    refine ⟨t.holding, ?_, (transitionPosition_signed hh hq ht).1⟩
    simp only [hmap, ht]
    rfl

theorem forwardPosition_exit {exits : List Signal} (hexits : exits ≠ []) (entries : List Signal)
    (size : Signal → Option ℚ) (price : ℚ) (h : Holding) :
    forwardPosition exits entries size price h = carryOut .close none price h := by
  cases exits with
  | nil => exact absurd rfl hexits
  | cons first rest => cases entries <;> rfl

theorem forwardPosition_entry (symbol : String) (side : ExecutionSide) (strength : ℚ)
    (size : Signal → Option ℚ) (price : ℚ) (h : Holding) :
    forwardPosition [] [{ symbol, action := entryAction side, strength }] size price h =
      carryOut (entryAction side) (size { symbol, action := entryAction side, strength }) price h := by
  cases side <;> rfl

/-- The open trades of the live path and of the engine, and the sizes, agree before the fills. -/
structure SameBooks (e : Engine) (symbol : String) (price : ℚ) (time : Time) (row : BarRow)
    (size : Signal → Option ℚ) (h : Holding) (st : EngineState) : Prop where
  distinct : st.Distinct
  quantity_nonneg : 0 ≤ h.quantity
  net : st.netPosition symbol = h.signed
  sizes : ∀ signal ∈ st.pendingEntries,
    size signal = (st.executeExits e time price).entryQuantity e price row signal

/-- The pending signals of a bar leave the same net position live and in the engine exactly when
they do not hold both an exit and an entry that the sizer gives an order. -/
theorem forwardPosition_eq_engine_iff (rules : BarRules S) (s : S) (x x' : ExitState)
    (bar : BarRow) (trades : List Trade) (htrades : ∀ t ∈ trades, t.symbol = rules.symbol)
    (e : Engine) (price : ℚ) (time : Time) (row : BarRow) (size : Signal → Option ℚ) (h : Holding)
    (st : EngineState)
    (hqueued : evaluateQueuedSignals rules.strategy s x bar trades =
      (x', .ok (st.pendingExits, st.pendingEntries)))
    (hbooks : SameBooks e rules.symbol price time row size h st) :
    (∃ h', forwardPosition st.pendingExits st.pendingEntries size price h = .ok h' ∧
      h'.signed = ((st.executeExits e time price).executeEntries e time price row).netPosition
        rules.symbol) ↔
    st.pendingExits = [] ∨ ∀ signal ∈ st.pendingEntries, size signal = none := by
  obtain ⟨hdistinct, hh, hnet, hsizes⟩ := hbooks
  obtain ⟨hexits, hentries⟩ := evaluateQueuedSignals_queued htrades hqueued
  rw [executeEntries_of_queued]
  have hsized : ∀ signal ∈ st.pendingEntries, ∀ q ∈ size signal, 0 < q := by
    intro signal hmem q hq
    rw [hsizes signal hmem] at hq
    exact entryQuantity_pos hq
  by_cases hnone : st.pendingExits = []
  · refine iff_of_true ?_ (.inl hnone)
    have hkept : st.executeExits e time price = st := by
      rw [EngineState.executeExits, hnone]
      rfl
    rw [hkept] at hsizes ⊢
    rcases hentries with hempty | ⟨side, strength, hone⟩
    · rw [hnone, hempty]
      exact ⟨h, rfl, hnet.symm⟩
    · rw [hone] at hsizes hsized ⊢
      rw [List.forall_mem_singleton] at hsizes hsized
      obtain ⟨h', hlive, hsigned⟩ := carryOut_entry hh side hsized price
      refine ⟨h', ?_, ?_⟩
      · rw [hnone, forwardPosition_entry]
        exact hlive
      · rw [List.foldl_cons, List.foldl_nil, netPosition_executeEntry, ← hsizes, hnet]
        exact hsigned
  · have hflat : (st.executeExits e time price).netPosition rules.symbol = 0 :=
      netPosition_executeExits hdistinct hnone hexits
    obtain ⟨h', hlive, hsigned⟩ := carryOut_close hh price
    have hlive' : forwardPosition st.pendingExits st.pendingEntries size price h = .ok h' := by
      rw [forwardPosition_exit hnone]
      exact hlive
    have hreduce : (∃ h', forwardPosition st.pendingExits st.pendingEntries size price h = .ok h' ∧
        h'.signed = ((st.pendingEntries.foldl (EngineState.executeEntry e time price row)
          (st.executeExits e time price)).netPosition rules.symbol)) ↔
        (st.pendingEntries.foldl (EngineState.executeEntry e time price row)
          (st.executeExits e time price)).netPosition rules.symbol = 0 := by
      constructor
      · rintro ⟨h'', hlive'', heq⟩
        rw [hlive'] at hlive''
        cases hlive''
        rw [← heq, hsigned]
      · intro hzero
        exact ⟨h', hlive', hsigned.trans hzero.symm⟩
    rw [hreduce, or_iff_right hnone]
    rcases hentries with hempty | ⟨side, strength, hone⟩
    · rw [hempty]
      exact iff_of_true hflat (by simp)
    · rw [hone] at hsizes hsized ⊢
      rw [List.forall_mem_singleton] at hsizes hsized ⊢
      rw [List.foldl_cons, List.foldl_nil, netPosition_executeEntry, hflat, ← hsizes, zero_add]
      cases hsize : size { symbol := rules.symbol, action := entryAction side, strength } with
      | none => simp
      | some q =>
        have hq : 0 < q := hsized q hsize
        cases side <;> simp [signedQuantity, hq.ne']

/-! ## A reversal -/

def crossRow (column : String) : BarRow :=
  { bar := { openTime := 0, open_ := 10, high := 11, low := 9, close := 10 }
    columns := [(column, some 1)] }

def longTrade : Trade :=
  { id := drawId 0, symbol := "WIN", action := .buy, quantity := 1, entryTime := 0
    entryPrice := 10 }

def longHolding : Holding := ⟨.long, 1, some 10⟩

/-- The engine before the bar that executes the queues, long one contract. -/
def longState (exits entries : List Signal) : EngineState :=
  { trades := [{ toTrade := longTrade }], capital := 100000, pendingExits := exits
    pendingEntries := entries, drawn := 1 }

def closeSignal : Signal := { symbol := "WIN", action := .close }

def sellSignal : Signal := { symbol := "WIN", action := .sell }

def buySignal : Signal := { symbol := "WIN", action := .buy }

theorem sameBooks_long {exits entries : List Signal} {size : Signal → Option ℚ}
    (hsizes : ∀ signal ∈ entries, size signal =
      ((longState exits entries).executeExits unitEngine 60 12).entryQuantity unitEngine 12
        (crossRow "sell_signal") signal) :
    SameBooks unitEngine "WIN" 12 60 (crossRow "sell_signal") size longHolding
      (longState exits entries) where
  distinct := by simp [EngineState.Distinct, longState]
  quantity_nonneg := by decide
  net := by simp [EngineState.netPosition, longState, RegisteredTrade.isOpen, longTrade,
    RegisteredTrade.signed, longHolding, Holding.signed]
  sizes := hsizes

/-- A crossing down while long queues a CLOSE and a SELL. The engine reverses to short one, and the
live position ends flat. -/
theorem reversal_is_dropped :
    (evaluateQueuedSignals (maCrossoverRules "WIN").strategy () ExitState.empty
      (crossRow "sell_signal") [longTrade]).2.toOption = some ([closeSignal], [sellSignal]) ∧
    SameBooks unitEngine "WIN" 12 60 (crossRow "sell_signal") (fun _ => some 1) longHolding
      (longState [closeSignal] [sellSignal]) ∧
    (forwardPosition [closeSignal] [sellSignal] (fun _ => some 1) 12 longHolding).toOption =
      some Holding.flat ∧
    (((longState [closeSignal] [sellSignal]).executeExits unitEngine 60 12).executeEntries unitEngine
      60 12 (crossRow "sell_signal")).netPosition "WIN" = -1 := by
  refine ⟨by decide +kernel, sameBooks_long ?_, by decide +kernel, by decide +kernel⟩
  rw [List.forall_mem_singleton]
  decide +kernel

/-- The engine without a trade, before the bar that executes a crossing up. -/
def flatState : EngineState := { capital := 100000, pendingEntries := [buySignal] }

/-- A crossing up while flat: both paths end long one contract. -/
theorem crossing_up_agrees :
    ∃ h', forwardPosition [] [buySignal] (fun _ => some 1) 12 .flat = .ok h' ∧
      h'.signed = ((flatState.executeExits unitEngine 60 12).executeEntries unitEngine 60 12
        (crossRow "buy_signal")).netPosition "WIN" := by
  refine (forwardPosition_eq_engine_iff (maCrossoverRules "WIN") () ExitState.empty
    (evaluateQueuedSignals (maCrossoverRules "WIN").strategy () ExitState.empty
      (crossRow "buy_signal") []).1 (crossRow "buy_signal") [] (by simp) unitEngine 12 60
    (crossRow "buy_signal") (fun _ => some 1) .flat flatState ?_ ?_).mpr (.inl rfl)
  · exact Prod.ext rfl (eq_ok_of_toOption (by decide +kernel))
  · refine ⟨by simp [EngineState.Distinct, flatState], le_rfl, rfl, ?_⟩
    rw [show flatState.pendingEntries = [buySignal] from rfl, List.forall_mem_singleton]
    decide +kernel

end QBackend.Backtesting
