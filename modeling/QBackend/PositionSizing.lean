import QBackend.StrategyEvaluator
import Mathlib.Algebra.Order.Floor.Ring
import Mathlib.Data.Rat.Floor
import Mathlib.Tactic.Linarith

/-!
# Position sizing and the back-test's cap

The sizers of `backtesting/position_sizing.py` and the entry loop of `backtesting/engine.py`: the
engine sizes each queued entry at the open of the next bar and cuts it to what the sizer's cap
leaves over the open trades of the symbol.
-/

namespace QBackend.Execution

/-! ## Sizers -/

structure FixedQuantitySizer where
  quantity : ℚ
  scaleBySignalStrength : Bool := false
  quantity_pos : 0 < quantity

structure FixedSafetyMarginSizer where
  safetyMarginPerContract : ℚ
  maxContracts : Option ℕ := none
  minContracts : ℕ := 1
  scaleBySignalStrength : Bool := false
  margin_pos : 0 < safetyMarginPerContract
  min_le_max : ∀ m ∈ maxContracts, minContracts ≤ m

structure InverseVolatilitySizer where
  targetVolatilityPct : ℚ
  pointValue : ℚ := 1
  maxContracts : Option ℕ := none
  minContracts : ℕ := 0
  scaleBySignalStrength : Bool := false
  target_pos : 0 < targetVolatilityPct
  pointValue_pos : 0 < pointValue
  min_le_max : ∀ m ∈ maxContracts, minContracts ≤ m

theorem pointValue_default : (0 : ℚ) < 1 := one_pos

inductive PositionSizer where
  | fixedQuantity (s : FixedQuantitySizer)
  | fixedSafetyMargin (s : FixedSafetyMarginSizer)
  | inverseVolatility (s : InverseVolatilitySizer)

/-- The prices and columns of the bar that a sizer reads. -/
structure SizingBar where
  price : ℚ
  volatility : Option ℚ := none

def atMost (bound : Option ℕ) (n : ℤ) : ℤ :=
  match bound with
  | none => n
  | some m => min n m

/-- The strength is a field with bounds 0 and 1. -/
structure Signal.Valid (signal : Signal) : Prop where
  nonneg : 0 ≤ signal.strength
  le_one : signal.strength ≤ 1

/-- The contracts of a target, scaled when the sizer asks for it. -/
def scaled (scale : Bool) (signal : Signal) (n : ℤ) : Option ℚ :=
  if n ≤ 0 then none
  else if scale then
    if ⌊(n : ℚ) * signal.strength⌋ ≤ 0 then none else some ⌊(n : ℚ) * signal.strength⌋
  else some n

def FixedQuantitySizer.size (s : FixedQuantitySizer) (signal : Signal) : Option ℚ :=
  let quantity := if s.scaleBySignalStrength then s.quantity * signal.strength else s.quantity
  if ⌊quantity⌋ ≤ 0 then none else some ⌊quantity⌋

def FixedSafetyMarginSizer.targetContracts (s : FixedSafetyMarginSizer) (capital : ℚ) : ℤ :=
  let quantity := atMost s.maxContracts ⌊capital / s.safetyMarginPerContract⌋
  if quantity < s.minContracts then
    if 0 < s.minContracts ∧ quantity = 0 then s.minContracts else 0
  else if 0 < quantity then quantity else 0

def InverseVolatilitySizer.targetContracts (s : InverseVolatilitySizer) (bar : SizingBar)
    (capital : ℚ) : Option ℤ :=
  match bar.volatility with
  | none => none
  | some volatility =>
    if volatility ≤ 0 ∨ bar.price ≤ 0 ∨ capital ≤ 0 then none
    else
      let notionalPerContract := volatility * bar.price * s.pointValue
      if notionalPerContract ≤ 0 then none
      else
        let raw := max (atMost s.maxContracts
          ⌊s.targetVolatilityPct / 100 * capital / notionalPerContract⌋) s.minContracts
        if 0 < raw then some raw else none

/-- The quantity of the order of `size_signal`. -/
def PositionSizer.sizeSignal (sizer : PositionSizer) (signal : Signal) (bar : SizingBar)
    (capital : ℚ) : Option ℚ :=
  if signal.action = .hold ∨ signal.action = .close then none
  else
    match sizer with
    | .fixedQuantity s => s.size signal
    | .fixedSafetyMargin s => scaled s.scaleBySignalStrength signal (s.targetContracts capital)
    | .inverseVolatility s =>
      (s.targetContracts bar capital).bind (scaled s.scaleBySignalStrength signal)

/-- `max_position_size`. The sizer by volatility asks for its target without a bar, so only its
contract limit counts. -/
def PositionSizer.maxPositionSize (sizer : PositionSizer) (price capital : ℚ) : Option ℚ :=
  match sizer with
  | .fixedQuantity s => some s.quantity
  | .fixedSafetyMargin s => some (s.targetContracts capital)
  | .inverseVolatility s =>
    match s.targetContracts { price } capital with
    | some n => some n
    | none => s.maxContracts.map (fun m : ℕ => (m : ℚ))

theorem PositionSizer.maxPositionSize_price (sizer : PositionSizer) (price price' capital : ℚ) :
    sizer.maxPositionSize price capital = sizer.maxPositionSize price' capital := by
  cases sizer <;> rfl

/-! ## An order fits the cap -/

theorem floor_mul_strength_le {signal : Signal} (h : signal.Valid) {x : ℚ} (hx : 0 ≤ x) :
    ((⌊x * signal.strength⌋ : ℤ) : ℚ) ≤ x :=
  calc ((⌊x * signal.strength⌋ : ℤ) : ℚ) ≤ x * signal.strength := Int.floor_le _
    _ ≤ x * 1 := mul_le_mul_of_nonneg_left h.le_one hx
    _ = x := mul_one x

theorem scaled_bounds {scale : Bool} {signal : Signal} (h : signal.Valid) {n : ℤ} {q : ℚ}
    (hq : scaled scale signal n = some q) : 0 < q ∧ q ≤ n := by
  unfold scaled at hq
  split at hq
  · cases hq
  next hn =>
    have hpos : (0 : ℚ) < n := by exact_mod_cast not_le.mp hn
    split at hq
    · split at hq
      · cases hq
      next hfloor =>
        cases hq
        have hbound := floor_mul_strength_le h hpos.le
        exact ⟨by exact_mod_cast not_le.mp hfloor, hbound⟩
    · cases hq
      exact ⟨hpos, le_rfl⟩

theorem FixedQuantitySizer.size_bounds (s : FixedQuantitySizer) {signal : Signal} (h : signal.Valid)
    {q : ℚ} (hq : s.size signal = some q) : 0 < q ∧ q ≤ s.quantity := by
  have hfloor : ∀ x : ℚ, x ≤ s.quantity → (if ⌊x⌋ ≤ 0 then none else some ((⌊x⌋ : ℤ) : ℚ)) = some q →
      0 < q ∧ q ≤ s.quantity := by
    intro x hx hsome
    split at hsome
    · cases hsome
    next hpos =>
      cases hsome
      exact ⟨by exact_mod_cast not_le.mp hpos, (Int.floor_le x).trans hx⟩
  refine hfloor _ ?_ hq
  split
  · calc s.quantity * signal.strength ≤ s.quantity * 1 :=
        mul_le_mul_of_nonneg_left h.le_one s.quantity_pos.le
      _ = s.quantity := mul_one _
  · exact le_rfl

theorem InverseVolatilitySizer.targetContracts_le (s : InverseVolatilitySizer) {bar : SizingBar}
    {capital : ℚ} {n : ℤ} {m : ℕ} (hn : s.targetContracts bar capital = some n)
    (hm : s.maxContracts = some m) : n ≤ m := by
  have hmin : (s.minContracts : ℤ) ≤ m := by exact_mod_cast s.min_le_max m hm
  unfold targetContracts at hn
  split at hn
  · cases hn
  · split at hn
    · cases hn
    · dsimp only at hn
      split at hn
      · cases hn
      · split at hn
        · cases hn
          rw [hm]
          exact max_le (min_le_right _ _) hmin
        · cases hn

/-- Every order of a sizer is positive and by itself within the cap at the same capital. -/
theorem PositionSizer.sizeSignal_bounds (sizer : PositionSizer) {signal : Signal}
    (h : signal.Valid) {bar : SizingBar} {capital q : ℚ}
    (hq : sizer.sizeSignal signal bar capital = some q) :
    0 < q ∧ ∀ cap, sizer.maxPositionSize bar.price capital = some cap → q ≤ cap := by
  unfold sizeSignal at hq
  split at hq
  · cases hq
  · cases sizer with
    | fixedQuantity s =>
      obtain ⟨hpos, hle⟩ := s.size_bounds h hq
      refine ⟨hpos, fun cap hcap => ?_⟩
      cases hcap
      exact hle
    | fixedSafetyMargin s =>
      obtain ⟨hpos, hle⟩ := scaled_bounds h hq
      refine ⟨hpos, fun cap hcap => ?_⟩
      cases hcap
      exact hle
    | inverseVolatility s =>
      obtain ⟨n, hn, hq⟩ := Option.bind_eq_some_iff.mp hq
      obtain ⟨hpos, hle⟩ := scaled_bounds h hq
      refine ⟨hpos, fun cap hcap => ?_⟩
      have hcap : s.maxContracts.map (fun m : ℕ => (m : ℚ)) = some cap := hcap
      obtain ⟨m, hm, rfl⟩ := Option.map_eq_some_iff.mp hcap
      have hbound : (n : ℚ) ≤ m := by exact_mod_cast s.targetContracts_le hn hm
      exact hle.trans hbound

/-! ## The entries of the engine -/

/-- The quantity open in a symbol, on both sides. -/
def openQuantity (trades : List Trade) (symbol : String) : ℚ :=
  ((trades.filter (fun t => t.symbol = symbol)).map Trade.quantity).sum

/-- The bar at whose open the queued entries are filled. -/
structure FillBar extends SizingBar where
  timestamp : Time
  pointValue : ℚ := 1

/-- The trade of a sized entry. -/
def entryTrade (bar : FillBar) (id : String) (signal : Signal) (quantity : ℚ) : Trade :=
  { id, symbol := signal.symbol, action := if signal.action = .buy then .buy else .sell, quantity
    entryTime := bar.timestamp, entryPrice := bar.price, pointValue := bar.pointValue }

/-- One queued entry: sized, then cut to what the cap leaves. -/
def executeEntry (sizer : PositionSizer) (capital : ℚ) (bar : FillBar) (id : String)
    (trades : List Trade) (signal : Signal) : List Trade :=
  match sizer.sizeSignal signal bar.toSizingBar capital with
  | none => trades
  | some quantity =>
    match sizer.maxPositionSize bar.price capital with
    | none => trades ++ [entryTrade bar id signal quantity]
    | some maxSize =>
      let remaining := maxSize - openQuantity trades signal.symbol
      if remaining ≤ 0 then trades
      else
        trades ++ [entryTrade bar id signal (if remaining < quantity then remaining else quantity)]

@[simp] theorem openQuantity_append (trades : List Trade) (trade : Trade) (symbol : String) :
    openQuantity (trades ++ [trade]) symbol =
      openQuantity trades symbol + if trade.symbol = symbol then trade.quantity else 0 := by
  by_cases h : trade.symbol = symbol <;> simp [openQuantity, h]

/-- As much of a quantity as the cap leaves. -/
def PositionSizer.withinCap (sizer : PositionSizer) (capital quantity : ℚ) : ℚ :=
  match sizer.maxPositionSize 0 capital with
  | none => quantity
  | some cap => min quantity cap

theorem PositionSizer.eq_withinCap_iff {sizer : PositionSizer} {capital quantity : ℚ} :
    quantity = sizer.withinCap capital quantity ↔
      ∀ price cap, sizer.maxPositionSize price capital = some cap → quantity ≤ cap := by
  have hprice := fun price => sizer.maxPositionSize_price price 0 capital
  simp only [hprice, withinCap]
  cases sizer.maxPositionSize 0 capital <;> simp

/-- A filled entry adds to the open trades what the cap leaves of its size. -/
theorem openQuantity_executeEntry {sizer : PositionSizer} {capital asked q : ℚ} {bar : FillBar}
    {id : String} {trades : List Trade} {signal : Signal}
    (hq : sizer.sizeSignal signal bar.toSizingBar capital = some q) (hpos : 0 < q)
    (h : openQuantity trades signal.symbol = sizer.withinCap capital asked) :
    openQuantity (executeEntry sizer capital bar id trades signal) signal.symbol =
      sizer.withinCap capital (asked + q) := by
  have hopened : ∀ x, openQuantity (trades ++ [entryTrade bar id signal x]) signal.symbol =
      openQuantity trades signal.symbol + x := by
    intro x
    rw [openQuantity_append]
    exact congrArg _ (if_pos rfl)
  rw [executeEntry, hq, sizer.maxPositionSize_price bar.price 0 capital]
  unfold PositionSizer.withinCap at h ⊢
  cases hcap : sizer.maxPositionSize 0 capital with
  | none =>
    rw [hcap] at h
    dsimp only
    rw [hopened, h]
  | some cap =>
    rw [hcap] at h
    dsimp only at h ⊢
    split
    next hfull =>
      have hover : cap ≤ asked := by
        by_contra hlt
        rw [min_eq_left (not_le.mp hlt).le] at h
        linarith
      rw [h, min_eq_right hover, min_eq_right (by linarith)]
    next hleft =>
      have hunder : asked < cap := by
        by_contra hge
        rw [min_eq_right (not_lt.mp hge)] at h
        linarith
      rw [min_eq_left hunder.le] at h
      rw [hopened, h]
      split
      · rw [min_eq_right (by linarith)]
        ring
      · rw [min_eq_left (by linarith)]

end QBackend.Execution
