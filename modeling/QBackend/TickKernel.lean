import QBackend.FallibleSteps
import QBackend.TickSizing
import QBackend.EquityCurves
import Mathlib.Data.Fin.Basic

/-!
# The tick kernel

`_simulate_njit` of `backtesting/tick/kernel.py` and `_events_to_registry` of
`backtesting/tick/engine.py`. One loop holds at most one position and writes a row for each position
it closes into arrays as long as the ticks. A NaN distance is `none`, and the seven output arrays,
which are written together, are one array of rows.
-/

namespace QBackend.Backtesting

open Execution

/-! ## The arrays -/

/-- `ExitReason` of `backtesting/tick/orders.py`. -/
inductive TickExit where
  | stopLoss | takeProfit | signal | endOfDay
  deriving DecidableEq, Repr

def TickExit.code : TickExit → ℤ
  | .stopLoss => 1
  | .takeProfit => 2
  | .signal => 3
  | .endOfDay => 4

/-- `ExitReason(code).name`, or what an unknown code is called. -/
def exitReasonName (code : ℤ) : String :=
  match [TickExit.stopLoss, .takeProfit, .signal, .endOfDay].find? (fun r => r.code = code) with
  | some .stopLoss => "STOP_LOSS"
  | some .takeProfit => "TAKE_PROFIT"
  | some .signal => "SIGNAL"
  | some .endOfDay => "END_OF_DAY"
  | none => "UNKNOWN"

/-- The scalars of a sizing. The margin that divides the capital is not zero. -/
structure KernelSizing where
  mode : SizingMode
  a : ℚ
  b : ℚ
  c : ℚ
  divisor : mode = .fixedSafetyMargin → a ≠ 0

theorem kernelSizingParams_divisor {config : PositionSizingConfig} {mode : SizingMode} {a b c : ℚ}
    (h : kernelSizingParams config = .ok (mode, a, b, c)) : mode = .fixedSafetyMargin → a ≠ 0 := by
  cases config with
  | fixedQuantity s =>
    cases h
    exact nofun
  | fixedSafetyMargin s =>
    simp only [kernelSizingParams, FallibleSteps.bind_eq_ok, FallibleSteps.pure_eq_ok,
      Prod.mk.injEq] at h
    obtain ⟨maxC, -, minC, -, -, ha, -⟩ := h
    exact fun _ => ha ▸ s.margin_pos.ne'
  | inverseVolatility s => cases h

/-- What `kernel_sizing_params` hands to the kernel. -/
def KernelSizing.ofParams {config : PositionSizingConfig} {mode : SizingMode} {a b c : ℚ}
    (h : kernelSizingParams config = .ok (mode, a, b, c)) : KernelSizing :=
  { mode, a, b, c, divisor := kernelSizingParams_divisor h }

/-- The arguments of `simulate`, over ticks of one number. -/
structure KernelInput (n : ℕ) where
  bid : Vector ℚ n
  ask : Vector ℚ n
  direction : Vector ℤ n
  slPoints : Vector (Option ℚ) n
  tpPoints : Vector (Option ℚ) n
  initialCapital : ℚ
  pointValue : ℚ
  sizing : KernelSizing

/-- A row of the output arrays. -/
structure EventRow where
  entryIdx : ℕ
  exitIdx : ℕ
  entryPrice : ℚ
  exitPrice : ℚ
  tradeDirection : ℤ
  quantity : ℚ
  exitReason : ℤ
  deriving DecidableEq, Repr

structure KernelState (n : ℕ) where
  rows : Vector EventRow n
  capital : ℚ
  positionDir : ℤ := 0
  posEntryIdx : ℕ := 0
  posEntryPrice : ℚ := 0
  posQuantity : ℚ := 0
  slPrice : ℚ := 0
  tpPrice : ℚ := 0
  hasSl : Bool := false
  hasTp : Bool := false
  tradeCount : ℕ := 0
  blockReentry : Bool := false

namespace KernelInput

variable {n : ℕ} (x : KernelInput n)

def quantityAt (capital : ℚ) : ℚ :=
  computeQuantity capital x.sizing.mode x.sizing.a x.sizing.b x.sizing.c

/-! ## The loop -/

/-- A position opened at a tick. The levels of an absent stop or target keep what they held. -/
def openPosition (i : Fin n) (st : KernelState n) (quantity : ℚ) : KernelState n :=
  let long := 0 < x.direction[i]
  let price := if long then x.ask[i] else x.bid[i]
  { st with
    positionDir := if long then 1 else -1
    posEntryPrice := price
    posEntryIdx := i
    posQuantity := quantity
    hasSl := x.slPoints[i].isSome
    hasTp := x.tpPoints[i].isSome
    slPrice := x.slPoints[i].elim st.slPrice (fun d => if long then price - d else price + d)
    tpPrice := x.tpPoints[i].elim st.tpPrice (fun d => if long then price + d else price - d) }

/-- The branches of an open position on a tick, in their order. -/
def exitOn (i : Fin n) (st : KernelState n) : Option TickExit :=
  if 0 < st.positionDir then
    if st.hasSl ∧ x.bid[i] ≤ st.slPrice then some .stopLoss
    else if st.hasTp ∧ st.tpPrice ≤ x.bid[i] then some .takeProfit
    else if x.direction[i] < 0 then some .signal
    else none
  else
    if st.hasSl ∧ st.slPrice ≤ x.ask[i] then some .stopLoss
    else if st.hasTp ∧ x.ask[i] ≤ st.tpPrice then some .takeProfit
    else if 0 < x.direction[i] then some .signal
    else none

def fillPrice (i : Fin n) (st : KernelState n) : ℚ :=
  if 0 < st.positionDir then x.bid[i] else x.ask[i]

/-- The row of a position that is closed at a tick. -/
def eventRow (i : Fin n) (reason : TickExit) (st : KernelState n) : EventRow where
  entryIdx := st.posEntryIdx
  exitIdx := i
  entryPrice := st.posEntryPrice
  exitPrice := x.fillPrice i st
  tradeDirection := st.positionDir
  quantity := st.posQuantity
  exitReason := reason.code

/-- The row goes into the arrays and the profit into the capital. A write past the arrays has no
result. -/
def recordTrade (i : Fin n) (reason : TickExit) (st : KernelState n) : Option (KernelState n) :=
  let price := x.fillPrice i st
  let pnl := if 0 < st.positionDir
    then (price - st.posEntryPrice) * st.posQuantity * x.pointValue
    else (st.posEntryPrice - price) * st.posQuantity * x.pointValue
  if h : st.tradeCount < n then
    some { st with
      capital := st.capital + pnl, rows := st.rows.set st.tradeCount (x.eventRow i reason st) h
      tradeCount := st.tradeCount + 1 }
  else none

/-- The body of the loop. -/
def tick (i : Fin n) (st : KernelState n) : Option (KernelState n) :=
  let st := { st with blockReentry := false }
  if st.positionDir = 0 then
    if x.direction[i] ≠ 0 ∧ 0 < x.quantityAt st.capital then
      some (x.openPosition i st (x.quantityAt st.capital))
    else some st
  else
    match x.exitOn i st with
    | none => some st
    | some reason =>
      (x.recordTrade i reason st).map (fun st => { st with positionDir := 0, blockReentry := true })

/-- The state before the tick `k`, from what `np.empty` holds. -/
def stateBefore (blank : Vector EventRow n) : ℕ → Option (KernelState n)
  | 0 => some { rows := blank, capital := x.initialCapital }
  | k + 1 => (stateBefore blank k).bind (fun st => if h : k < n then x.tick ⟨k, h⟩ st else some st)

/-- A position left open is closed at the last tick. -/
def closeLast (st : KernelState n) : Option (KernelState n) :=
  if st.positionDir ≠ 0 then
    if h : 0 < n then x.recordTrade ⟨n - 1, Nat.sub_lt h Nat.one_pos⟩ .endOfDay st else none
  else some st

end KernelInput

/-- What `simulate` returns. -/
structure KernelOutput (n : ℕ) where
  rows : Vector EventRow n
  tradeCount : ℕ
  finalCapital : ℚ

/-- The rows that were written. -/
def KernelOutput.events {n : ℕ} (out : KernelOutput n) : List EventRow :=
  out.rows.toList.take out.tradeCount

def KernelInput.simulate {n : ℕ} (x : KernelInput n) (blank : Vector EventRow n) :
    Option (KernelOutput n) := do
  let st ← x.stateBefore blank n
  let st ← x.closeLast st
  return { rows := st.rows, tradeCount := st.tradeCount, finalCapital := st.capital }

/-! ## The registry -/

/-- The trade of a row, closed without costs. Times are in milliseconds in the arrays. -/
def EventRow.trade (row : EventRow) (id : String) (timeMsc : ℕ → ℤ) (symbol : String)
    (pointValue : ℚ) : RegisteredTrade :=
  let opened : RegisteredTrade :=
    { id, symbol, action := if 0 < row.tradeDirection then .buy else .sell, quantity := row.quantity
      entryTime := timeMsc row.entryIdx * 1000, entryPrice := row.entryPrice, pointValue }
  opened.close none (timeMsc row.exitIdx * 1000) row.exitPrice (exitReasonName row.exitReason)

/-- `_events_to_registry`. Each row draws an identifier for its order and one for its trade. -/
def eventsToRegistry (uuid : ℕ → String) (timeMsc : ℕ → ℤ) (symbol : String) (pointValue : ℚ)
    (events : List EventRow) : List RegisteredTrade :=
  events.mapIdx (fun i row => row.trade (uuid (2 * i + 1)) timeMsc symbol pointValue)

/-! ## What a trade is

The levels of a trade come from the tick of its entry, and every later tick is read against them. -/

namespace KernelInput

variable {n : ℕ} (x : KernelInput n)

def entryPriceAt (entry : Fin n) : ℚ :=
  if 0 < x.direction[entry] then x.ask[entry] else x.bid[entry]

def exitPriceAt (entry i : Fin n) : ℚ := if 0 < x.direction[entry] then x.bid[i] else x.ask[i]

def stopLevel (entry : Fin n) : Option ℚ :=
  x.slPoints[entry].map (fun d =>
    if 0 < x.direction[entry] then x.entryPriceAt entry - d else x.entryPriceAt entry + d)

def targetLevel (entry : Fin n) : Option ℚ :=
  x.tpPoints[entry].map (fun d =>
    if 0 < x.direction[entry] then x.entryPriceAt entry + d else x.entryPriceAt entry - d)

def touchesStop (entry i : Fin n) : Bool :=
  (x.stopLevel entry).any (fun l => if 0 < x.direction[entry] then x.bid[i] ≤ l else l ≤ x.ask[i])

def touchesTarget (entry i : Fin n) : Bool :=
  (x.targetLevel entry).any (fun l =>
    if 0 < x.direction[entry] then l ≤ x.bid[i] else x.ask[i] ≤ l)

def oppositeSignal (entry i : Fin n) : Bool :=
  if 0 < x.direction[entry] then x.direction[i] < 0 else 0 < x.direction[i]

/-- Why a tick closes a trade entered at `entry`: the stop before the target before the signal. -/
def reasonAt (entry i : Fin n) : Option TickExit :=
  if x.touchesStop entry i then some .stopLoss
  else if x.touchesTarget entry i then some .takeProfit
  else if x.oppositeSignal entry i then some .signal
  else none

/-- The first tick after the entry that closes the trade, or else the last tick. -/
inductive ExitsAt (entry : Fin n) : Fin n → TickExit → Prop
  | first {i : Fin n} {reason : TickExit} (later : entry < i)
      (closes : x.reasonAt entry i = some reason)
      (before : ∀ j, entry < j → j < i → x.reasonAt entry j = none) : ExitsAt entry i reason
  | last {i : Fin n} (isLast : (i : ℕ) + 1 = n)
      (never : ∀ j, entry < j → x.reasonAt entry j = none) : ExitsAt entry i .endOfDay

/-- The row is a trade whose entry is sized with the capital. -/
structure TradeAt (capital : ℚ) (row : EventRow) (entry exit : Fin n) (reason : TickExit) :
    Prop where
  entryIdx : row.entryIdx = entry
  exitIdx : row.exitIdx = exit
  entry_le_exit : entry ≤ exit
  signal : x.direction[entry] ≠ 0
  direction : row.tradeDirection = if 0 < x.direction[entry] then 1 else -1
  entryPrice : row.entryPrice = x.entryPriceAt entry
  exitPrice : row.exitPrice = x.exitPriceAt entry exit
  quantity : row.quantity = x.quantityAt capital
  quantity_pos : 0 < row.quantity
  exitReason : row.exitReason = reason.code
  exits : x.ExitsAt entry exit reason

/-- The loop opens a position on the tick. -/
def opensAt (blank : Vector EventRow n) (i : ℕ) : Bool :=
  if h : i < n then
    (x.stateBefore blank i).any (fun st =>
      st.positionDir = 0 ∧ x.direction[i] ≠ 0 ∧ 0 < x.quantityAt st.capital)
  else false

end KernelInput

def EventRow.pnl (row : EventRow) (pointValue : ℚ) : ℚ :=
  if 0 < row.tradeDirection then (row.exitPrice - row.entryPrice) * row.quantity * pointValue
  else (row.entryPrice - row.exitPrice) * row.quantity * pointValue

def totalPnl (pointValue : ℚ) (events : List EventRow) : ℚ :=
  (events.map (·.pnl pointValue)).sum

/-- The rows are the trades of the kernel, one after the other, each sized with the initial capital
and the profits before it, and they are all positions that the loop opened. -/
structure KernelInput.Trades {n : ℕ} (x : KernelInput n) (blank : Vector EventRow n)
    (events : List EventRow) : Prop where
  ordered : events.Pairwise fun row row' => row.exitIdx < row'.entryIdx
  trades : ∀ k row, events[k]? = some row → ∃ entry exit reason,
    x.TradeAt (x.initialCapital + totalPnl x.pointValue (events.take k)) row entry exit reason
  opened : events.map EventRow.entryIdx = (List.range n).filter (x.opensAt blank)

section Totals

variable {pointValue : ℚ}

@[simp] theorem totalPnl_nil : totalPnl pointValue [] = 0 := rfl

@[simp] theorem totalPnl_append (events added : List EventRow) :
    totalPnl pointValue (events ++ added) =
      totalPnl pointValue events + totalPnl pointValue added := by
  simp [totalPnl]

@[simp] theorem totalPnl_singleton (row : EventRow) :
    totalPnl pointValue [row] = row.pnl pointValue := by
  simp [totalPnl]

theorem take_set_succ {α : Type*} {l : List α} {k : ℕ} (h : k < l.length) (a : α) :
    (l.set k a).take (k + 1) = l.take k ++ [a] := by
  have hset : k < (l.set k a).length := by rwa [List.length_set]
  rw [List.take_succ_eq_append_getElem hset, List.getElem_set_self, List.take_set_of_le le_rfl]

end Totals

/-! ## The open position -/

/-- The rows written so far. -/
def KernelState.events {n : ℕ} (st : KernelState n) : List EventRow :=
  st.rows.toList.take st.tradeCount

namespace KernelInput

section Position

variable {n : ℕ} {x : KernelInput n} {st st' : KernelState n} {entry i : Fin n} {reason : TickExit}

/-- The state holds the position opened on the tick, with its own levels. -/
structure Holds (x : KernelInput n) (entry : Fin n) (st : KernelState n) : Prop where
  entryIdx : st.posEntryIdx = entry
  signal : x.direction[entry] ≠ 0
  direction : st.positionDir = if 0 < x.direction[entry] then 1 else -1
  price : st.posEntryPrice = x.entryPriceAt entry
  quantity : st.posQuantity = x.quantityAt st.capital
  quantity_pos : 0 < st.posQuantity
  stop : (if st.hasSl then some st.slPrice else none) = x.stopLevel entry
  target : (if st.hasTp then some st.tpPrice else none) = x.targetLevel entry

theorem openPosition_holds (hsignal : x.direction[i] ≠ 0) (hqty : 0 < x.quantityAt st.capital) :
    x.Holds i (x.openPosition i st (x.quantityAt st.capital)) where
  entryIdx := rfl
  signal := hsignal
  direction := rfl
  price := rfl
  quantity := rfl
  quantity_pos := hqty
  stop := by
    unfold openPosition stopLevel entryPriceAt
    cases x.slPoints[i] <;> rfl
  target := by
    unfold openPosition targetLevel entryPriceAt
    cases x.tpPoints[i] <;> rfl

theorem Holds.positionDir_pos (h : x.Holds entry st) :
    0 < st.positionDir ↔ 0 < x.direction[entry] := by
  rw [h.direction]
  split <;> simp_all

theorem Holds.positionDir_ne (h : x.Holds entry st) : st.positionDir ≠ 0 := by
  rw [h.direction]
  split <;> decide

/-- The branches of the loop read the tick against the levels of the entry. -/
theorem Holds.exitOn (h : x.Holds entry st) : x.exitOn i st = x.reasonAt entry i := by
  have hstop : x.touchesStop entry i = (decide (st.hasSl ∧
      if 0 < x.direction[entry] then x.bid[i] ≤ st.slPrice else st.slPrice ≤ x.ask[i])) := by
    rw [touchesStop, ← h.stop]
    cases st.hasSl <;> simp
  have htarget : x.touchesTarget entry i = (decide (st.hasTp ∧
      if 0 < x.direction[entry] then st.tpPrice ≤ x.bid[i] else x.ask[i] ≤ st.tpPrice)) := by
    rw [touchesTarget, ← h.target]
    cases st.hasTp <;> simp
  unfold KernelInput.exitOn reasonAt oppositeSignal
  rw [hstop, htarget]
  by_cases hlong : 0 < x.direction[entry]
  · simp only [if_pos (h.positionDir_pos.mpr hlong), if_pos hlong, decide_eq_true_eq]
  · simp only [if_neg (mt h.positionDir_pos.mp hlong), if_neg hlong, decide_eq_true_eq]

theorem recordTrade_ok (x : KernelInput n) (i : Fin n) (reason : TickExit)
    (hroom : st.tradeCount < n) :
    ∃ st', x.recordTrade i reason st = some st' ∧
      st'.events = st.events ++ [x.eventRow i reason st] ∧
      st'.capital = st.capital + (x.eventRow i reason st).pnl x.pointValue ∧
      st'.tradeCount = st.tradeCount + 1 := by
  refine ⟨_, dif_pos hroom, ?_, rfl, rfl⟩
  unfold KernelState.events
  rw [Vector.toList_set]
  exact take_set_succ (by rwa [Vector.length_toList]) _

theorem Holds.tradeAt (h : x.Holds entry st) (hexits : x.ExitsAt entry i reason) :
    x.TradeAt st.capital (x.eventRow i reason st) entry i reason where
  entryIdx := h.entryIdx
  exitIdx := rfl
  entry_le_exit := by
    cases hexits with
    | first later _ _ => exact later.le
    | last isLast _ => exact Fin.le_def.mpr (by have := entry.isLt; omega)
  signal := h.signal
  direction := h.direction
  entryPrice := h.price
  exitPrice := by
    show x.fillPrice i st = _
    unfold fillPrice exitPriceAt
    by_cases hlong : 0 < x.direction[entry]
    · rw [if_pos (h.positionDir_pos.mpr hlong), if_pos hlong]
    · rw [if_neg (mt h.positionDir_pos.mp hlong), if_neg hlong]
  quantity := h.quantity
  quantity_pos := h.quantity_pos
  exitReason := rfl
  exits := hexits

end Position

/-! ## The invariant of the loop -/

section Loop

variable {n : ℕ} {x : KernelInput n} {blank : Vector EventRow n} {st st' : KernelState n} {k : ℕ}

/-- The entry of the position that is open. -/
def openEntry (st : KernelState n) : List ℕ :=
  if st.positionDir = 0 then [] else [st.posEntryIdx]

/-- The state before the tick `k`. Closed trades and an open position lie behind it, in order. -/
structure Sound (x : KernelInput n) (blank : Vector EventRow n) (k : ℕ) (st : KernelState n) :
    Prop where
  room : st.tradeCount + (openEntry st).length ≤ k
  count : st.events.length = st.tradeCount
  capital : st.capital = x.initialCapital + totalPnl x.pointValue st.events
  ordered : st.events.Pairwise fun row row' => row.exitIdx < row'.entryIdx
  behind : ∀ row ∈ st.events, row.exitIdx < k
  trades : ∀ m row, st.events[m]? = some row → ∃ entry exit reason,
    x.TradeAt (x.initialCapital + totalPnl x.pointValue (st.events.take m)) row entry exit reason
  position : st.positionDir ≠ 0 → ∃ entry : Fin n, (entry : ℕ) < k ∧ x.Holds entry st ∧
    (∀ row ∈ st.events, row.exitIdx < entry) ∧
    ∀ j : Fin n, entry < j → (j : ℕ) < k → x.reasonAt entry j = none
  opened : st.events.map EventRow.entryIdx ++ openEntry st =
    (List.range k).filter (x.opensAt blank)

theorem openEntry_of_holds {entry : Fin n} (h : x.Holds entry st) :
    openEntry st = [(entry : ℕ)] := by
  rw [openEntry, if_neg h.positionDir_ne, h.entryIdx]

theorem sound_start : x.Sound blank 0 { rows := blank, capital := x.initialCapital } where
  room := le_rfl
  count := by simp [KernelState.events]
  capital := by simp [KernelState.events]
  ordered := by simp [KernelState.events]
  behind := by simp [KernelState.events]
  trades := by simp [KernelState.events]
  position := fun h => absurd rfl h
  opened := by simp [KernelState.events, openEntry]

theorem Sound.recorded (h : x.Sound blank k st) {entry i : Fin n} {reason : TickExit}
    (hholds : x.Holds entry st) (hbefore : ∀ row ∈ st.events, row.exitIdx < entry)
    (hexits : x.ExitsAt entry i reason) :
    (st.events ++ [x.eventRow i reason st]).Pairwise (fun row row' => row.exitIdx < row'.entryIdx) ∧
      (∀ m row, (st.events ++ [x.eventRow i reason st])[m]? = some row → ∃ entry exit reason',
        x.TradeAt (x.initialCapital + totalPnl x.pointValue
          ((st.events ++ [x.eventRow i reason st]).take m)) row entry exit reason') ∧
      (st.events ++ [x.eventRow i reason st]).map EventRow.entryIdx =
        st.events.map EventRow.entryIdx ++ openEntry st := by
  refine ⟨?_, ?_, ?_⟩
  · rw [List.pairwise_append]
    refine ⟨h.ordered, List.pairwise_singleton _ _, fun row hrow row' hrow' => ?_⟩
    rw [List.mem_singleton.mp hrow']
    exact (hbefore row hrow).trans_eq hholds.entryIdx.symm
  · intro m row hrow
    obtain hm | hm := Nat.lt_or_ge m st.events.length
    · rw [List.getElem?_append_left hm] at hrow
      rw [List.take_append_of_le_length hm.le]
      exact h.trades m row hrow
    · obtain rfl : m = st.events.length := by
        have hlt := (List.getElem?_eq_some_iff.mp hrow).1
        rw [List.length_append, List.length_singleton] at hlt
        omega
      rw [List.getElem?_concat_length, Option.some.injEq] at hrow
      rw [List.take_left', ← h.capital, ← hrow]
      · exact ⟨entry, i, reason, hholds.tradeAt hexits⟩
      · rfl
  · rw [List.map_append, openEntry_of_holds hholds, ← hholds.entryIdx]
    rfl

theorem Holds.unblock {entry : Fin n} (h : x.Holds entry st) (b : Bool) :
    x.Holds entry { st with blockReentry := b } :=
  ⟨h.entryIdx, h.signal, h.direction, h.price, h.quantity, h.quantity_pos, h.stop, h.target⟩

theorem Sound.unblock (h : x.Sound blank k st) (b : Bool) :
    x.Sound blank k { st with blockReentry := b } where
  room := h.room
  count := h.count
  capital := h.capital
  ordered := h.ordered
  behind := h.behind
  trades := h.trades
  position := by
    intro hopen
    obtain ⟨entry, hlt, hholds, hrest⟩ := h.position hopen
    exact ⟨entry, hlt, hholds.unblock b, hrest⟩
  opened := h.opened

theorem opensAt_eq (hk : k < n) (hstate : x.stateBefore blank k = some st) :
    x.opensAt blank k =
      decide (st.positionDir = 0 ∧ x.direction[k] ≠ 0 ∧ 0 < x.quantityAt st.capital) := by
  rw [opensAt, dif_pos hk, hstate, Option.any_some]

theorem filter_range_succ (p : ℕ → Bool) (k : ℕ) :
    (List.range (k + 1)).filter p = (List.range k).filter p ++ if p k then [k] else [] := by
  rw [List.range_succ, List.filter_append, List.filter_singleton]
  cases p k <;> rfl

theorem Sound.flat (h : x.Sound blank k st) (hk : k < n) (hflat : st.positionDir = 0)
    (hstate : x.stateBefore blank k = some st) :
    ∃ st', x.tick ⟨k, hk⟩ st = some st' ∧ x.Sound blank (k + 1) st' := by
  have hopen : openEntry st = [] := if_pos hflat
  have hroom := h.room
  have hopened := h.opened
  rw [hopen, List.length_nil, Nat.add_zero] at hroom
  rw [hopen, List.append_nil] at hopened
  by_cases hentry : x.direction[k] ≠ 0 ∧ 0 < x.quantityAt st.capital
  · have hholds : x.Holds ⟨k, hk⟩ (x.openPosition ⟨k, hk⟩ { st with blockReentry := false }
        (x.quantityAt st.capital)) := openPosition_holds hentry.1 hentry.2
    have hentered := openEntry_of_holds hholds
    refine ⟨_, (if_pos hflat).trans (if_pos hentry), ?_⟩
    constructor
    case room => rw [hentered]; exact Nat.succ_le_succ hroom
    case count => exact h.count
    case capital => exact h.capital
    case ordered => exact h.ordered
    case behind => exact fun row hrow => (h.behind row hrow).trans (Nat.lt_succ_self k)
    case trades => exact h.trades
    case position =>
      intro _
      refine ⟨⟨k, hk⟩, Nat.lt_succ_self k, hholds, h.behind, fun j hj hlt => ?_⟩
      have := Fin.lt_def.mp hj
      dsimp only at this
      omega
    case opened =>
      rw [hentered, filter_range_succ, opensAt_eq hk hstate,
        if_pos (by simp [hflat, hentry.1, hentry.2]), ← hopened]
      rfl
  · refine ⟨_, (if_pos hflat).trans (if_neg hentry), ?_⟩
    refine (Sound.unblock ?_ false)
    constructor
    case room => rw [hopen]; exact hroom.trans (Nat.le_succ k)
    case count => exact h.count
    case capital => exact h.capital
    case ordered => exact h.ordered
    case behind => exact fun row hrow => (h.behind row hrow).trans (Nat.lt_succ_self k)
    case trades => exact h.trades
    case position => exact fun hne => absurd hflat hne
    case opened =>
      rw [hopen, List.append_nil, filter_range_succ, opensAt_eq hk hstate,
        if_neg (by simpa [hflat] using hentry), List.append_nil, ← hopened]

theorem Sound.held (h : x.Sound blank k st) (hk : k < n) (hheld : st.positionDir ≠ 0)
    (hstate : x.stateBefore blank k = some st) :
    ∃ st', x.tick ⟨k, hk⟩ st = some st' ∧ x.Sound blank (k + 1) st' := by
  obtain ⟨entry, hlt, hholds, hbefore, hnever⟩ := h.position hheld
  have hroom := h.room
  rw [openEntry_of_holds hholds, List.length_singleton] at hroom
  have hquiet : x.opensAt blank k = false := by
    rw [opensAt_eq hk hstate, decide_eq_false_iff_not]
    exact fun hc => hheld hc.1
  have hfilter : (List.range (k + 1)).filter (x.opensAt blank) =
      (List.range k).filter (x.opensAt blank) := by
    rw [filter_range_succ, hquiet, if_neg Bool.false_ne_true, List.append_nil]
  have hunblocked := hholds.unblock false
  have hexit := hunblocked.exitOn (i := ⟨k, hk⟩)
  cases hreason : x.reasonAt entry ⟨k, hk⟩ with
  | none =>
    rw [hreason] at hexit
    refine ⟨{ st with blockReentry := false }, ?_, Sound.unblock ?_ false⟩
    · unfold KernelInput.tick
      dsimp only
      rw [if_neg hheld, hexit]
    · constructor
      case room => exact h.room.trans (Nat.le_succ k)
      case count => exact h.count
      case capital => exact h.capital
      case ordered => exact h.ordered
      case behind => exact fun row hrow => (h.behind row hrow).trans (Nat.lt_succ_self k)
      case trades => exact h.trades
      case position =>
        intro _
        refine ⟨entry, hlt.trans (Nat.lt_succ_self k), hholds, hbefore, fun j hj hjk => ?_⟩
        obtain hjk | hjk := Nat.lt_succ_iff_lt_or_eq.mp hjk
        · exact hnever j hj hjk
        · rwa [show j = ⟨k, hk⟩ from Fin.ext hjk]
      case opened => rw [hfilter, h.opened]
  | some reason =>
    rw [hreason] at hexit
    have hexits : x.ExitsAt entry ⟨k, hk⟩ reason :=
      .first (Fin.lt_def.mpr hlt) hreason fun j hj hjk => hnever j hj (Fin.lt_def.mp hjk)
    obtain ⟨hordered, htrades, hentries⟩ :=
      (h.unblock false).recorded hunblocked hbefore hexits
    have hwritable : ({ st with blockReentry := false } : KernelState n).tradeCount < n :=
      show st.tradeCount < n by omega
    obtain ⟨st', hst', hevents, hcapital, hcount⟩ := recordTrade_ok x ⟨k, hk⟩ reason hwritable
    refine ⟨{ st' with positionDir := 0, blockReentry := true }, ?_, ?_⟩
    · unfold KernelInput.tick
      dsimp only
      rw [if_neg hheld, hexit]
      dsimp only
      rw [hst', Option.map_some]
    · constructor
      case room =>
        have hone : st'.tradeCount = st.tradeCount + 1 := hcount
        show st'.tradeCount + 0 ≤ k + 1
        omega
      case count =>
        show st'.events.length = st'.tradeCount
        rw [hevents, hcount, List.length_append, List.length_singleton]
        exact congrArg (· + 1) h.count
      case capital =>
        show st'.capital = _ + totalPnl _ st'.events
        rw [hevents, hcapital, totalPnl_append, totalPnl_singleton, ← add_assoc]
        exact congrArg (· + _) h.capital
      case ordered =>
        show st'.events.Pairwise _
        rw [hevents]
        exact hordered
      case behind =>
        intro row hrow
        change row ∈ st'.events at hrow
        rw [hevents] at hrow
        obtain hrow | hrow := List.mem_append.mp hrow
        · exact (h.behind row hrow).trans (Nat.lt_succ_self k)
        · rw [List.mem_singleton.mp hrow]
          exact Nat.lt_succ_self k
      case trades =>
        show ∀ m row, st'.events[m]? = some row → ∃ entry exit reason,
          x.TradeAt (_ + totalPnl _ (st'.events.take m)) row entry exit reason
        rw [hevents]
        exact htrades
      case position => exact fun hne => absurd rfl hne
      case opened =>
        show st'.events.map _ ++ [] = _
        rw [hevents, hentries, List.append_nil, hfilter, ← h.opened]
        rfl

theorem sound_stateBefore (x : KernelInput n) (blank : Vector EventRow n) (hk : k ≤ n) :
    ∃ st, x.stateBefore blank k = some st ∧ x.Sound blank k st := by
  induction k with
  | zero => exact ⟨_, rfl, sound_start⟩
  | succ k ih =>
    obtain ⟨st, hst, hsound⟩ := ih (Nat.le_of_succ_le hk)
    rw [stateBefore, hst, Option.bind_some, dif_pos (Nat.lt_of_succ_le hk)]
    by_cases hflat : st.positionDir = 0
    · exact hsound.flat hk hflat hst
    · exact hsound.held hk hflat hst

theorem Sound.closeLast (h : x.Sound blank n st) :
    ∃ st', x.closeLast st = some st' ∧ st'.tradeCount ≤ n ∧ x.Trades blank st'.events ∧
      st'.capital = x.initialCapital + totalPnl x.pointValue st'.events := by
  have hroom := h.room
  unfold KernelInput.closeLast
  by_cases hflat : st.positionDir = 0
  · rw [if_neg (not_not.mpr hflat)]
    have hopen : openEntry st = [] := if_pos hflat
    have hopened := h.opened
    rw [hopen, List.append_nil] at hopened
    exact ⟨st, rfl, (Nat.le_add_right _ _).trans hroom, ⟨h.ordered, h.trades, hopened⟩, h.capital⟩
  · obtain ⟨entry, hlt, hholds, hbefore, hnever⟩ := h.position hflat
    have hn : 0 < n := Nat.zero_lt_of_lt hlt
    rw [openEntry_of_holds hholds, List.length_singleton] at hroom
    have hexits : x.ExitsAt entry ⟨n - 1, Nat.sub_lt hn Nat.one_pos⟩ .endOfDay :=
      .last (Nat.sub_add_cancel hn) fun j hj => hnever j hj j.isLt
    obtain ⟨hordered, htrades, hentries⟩ := h.recorded hholds hbefore hexits
    obtain ⟨st', hst', hevents, hcapital, hcount⟩ :=
      recordTrade_ok x ⟨n - 1, Nat.sub_lt hn Nat.one_pos⟩ .endOfDay hroom
    rw [if_pos hflat, dif_pos hn]
    refine ⟨st', hst', hcount.trans_le hroom, ?_, ?_⟩
    · rw [hevents]
      exact ⟨hordered, htrades, hentries.trans h.opened⟩
    · rw [hevents, hcapital, h.capital, totalPnl_append, totalPnl_singleton, add_assoc]

end Loop

end KernelInput

/-! ## The kernel and its registry -/

section Registry

variable {n : ℕ} {uuid : ℕ → String} {timeMsc : ℕ → ℤ} {symbol : String} {pointValue : ℚ}

/-- The trade of a row makes the profit of the row: it has no costs, and its side is the sign of the
direction. -/
theorem EventRow.trade_profit (row : EventRow) (id : String) :
    (row.trade id timeMsc symbol pointValue).profit = row.pnl pointValue := by
  unfold EventRow.trade EventRow.pnl RegisteredTrade.profit RegisteredTrade.close
  cases hlong : decide (0 < row.tradeDirection) with
  | true =>
    have hpos : 0 < row.tradeDirection := of_decide_eq_true hlong
    simp [hpos, sideCost]
  | false =>
    have hneg : ¬ 0 < row.tradeDirection := of_decide_eq_false hlong
    simp [hneg, sideCost]

theorem eventsToRegistry_profits (events : List EventRow) :
    (eventsToRegistry uuid timeMsc symbol pointValue events).map (·.profit) =
      events.map (·.pnl pointValue) := by
  refine List.ext_getElem? fun k => ?_
  rw [eventsToRegistry, List.getElem?_map, List.getElem?_mapIdx, List.getElem?_map, Option.map_map]
  exact congrArg (fun f => events[k]?.map f) (funext fun row => row.trade_profit _)

end Registry

/-- The kernel writes its trades inside the arrays, in order: each exits at the first tick after its
entry that touches its stop or its target or carries the opposite signal, or at the last tick, each
is sized with the initial capital and the profits before it, and they are all positions that the
loop opened. The registry carries the same profits. -/
theorem simulate_correct {n : ℕ} (x : KernelInput n) (blank : Vector EventRow n)
    (uuid : ℕ → String) (timeMsc : ℕ → ℤ) (symbol : String) :
    ∃ out, x.simulate blank = some out ∧ out.tradeCount ≤ n ∧
      out.events.length = out.tradeCount ∧ x.Trades blank out.events ∧
      out.finalCapital = x.initialCapital + totalPnl x.pointValue out.events ∧
      (eventsToRegistry uuid timeMsc symbol x.pointValue out.events).map (·.profit) =
        out.events.map (·.pnl x.pointValue) := by
  obtain ⟨st, hst, hsound⟩ := x.sound_stateBefore blank le_rfl
  obtain ⟨st', hst', hcount, htrades, hcapital⟩ := hsound.closeLast
  refine ⟨{ rows := st'.rows, tradeCount := st'.tradeCount, finalCapital := st'.capital }, ?_,
    hcount, ?_, htrades, hcapital, eventsToRegistry_profits _⟩
  · rw [KernelInput.simulate, hst]
    show (x.closeLast st).bind _ = _
    rw [hst']
    rfl
  · show (st'.rows.toList.take st'.tradeCount).length = st'.tradeCount
    rw [List.length_take, Vector.length_toList, min_eq_left hcount]

end QBackend.Backtesting
