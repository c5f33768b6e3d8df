import QBackend.PositionSizing
import Mathlib.Data.Int.ConditionallyCompleteOrder
import Mathlib.Tactic.NormNum

/-!
# Sizing in the tick kernel

`_compute_quantity` of `backtesting/tick/kernel.py` on the four scalars to which
`kernel_sizing_params` of `backtesting/tick/orders.py` reduces a sizing configuration, beside the
sizer that `build_position_sizer` makes of the same configuration for candles. The kernel truncates
where the sizer rounds down, to integers of 64 bits, writes a missing limit as zero and has no third
mode.
-/

namespace QBackend.Backtesting

open Execution

/-! ## Configurations -/

structure FixedQuantityPositionSizing where
  quantity : ℚ := 1
  scaleBySignalStrength : Bool := false
  quantity_pos : 0 < quantity

structure FixedSafetyMarginPositionSizing where
  safetyMarginPerContract : ℚ := 5000
  minContracts : ℕ := 1
  maxContracts : Option ℕ := none
  scaleBySignalStrength : Bool := false
  margin_pos : 0 < safetyMarginPerContract
  max_gte_min : ∀ m ∈ maxContracts, minContracts ≤ m

structure InverseVolatilityPositionSizing where
  targetVolatilityPct : ℚ := 10
  maxContracts : Option ℕ := none
  minContracts : ℕ := 0
  scaleBySignalStrength : Bool := false
  target_pos : 0 < targetVolatilityPct
  max_pos : ∀ m ∈ maxContracts, 1 ≤ m
  max_gte_min : ∀ m ∈ maxContracts, minContracts ≤ m

inductive PositionSizingConfig where
  | fixedQuantity (config : FixedQuantityPositionSizing)
  | fixedSafetyMargin (config : FixedSafetyMarginPositionSizing)
  | inverseVolatility (config : InverseVolatilityPositionSizing)

/-- `build_position_sizer`, with the default point value. -/
def buildPositionSizer : PositionSizingConfig → PositionSizer
  | .fixedQuantity c => .fixedQuantity
      { quantity := c.quantity, scaleBySignalStrength := c.scaleBySignalStrength
        quantity_pos := c.quantity_pos }
  | .fixedSafetyMargin c => .fixedSafetyMargin
      { safetyMarginPerContract := c.safetyMarginPerContract, maxContracts := c.maxContracts
        minContracts := c.minContracts, scaleBySignalStrength := c.scaleBySignalStrength
        margin_pos := c.margin_pos, min_le_max := c.max_gte_min }
  | .inverseVolatility c => .inverseVolatility
      { targetVolatilityPct := c.targetVolatilityPct, maxContracts := c.maxContracts
        minContracts := c.minContracts, scaleBySignalStrength := c.scaleBySignalStrength
        target_pos := c.target_pos, pointValue_pos := pointValue_default, min_le_max := c.max_gte_min }

/-! ## The kernel -/

inductive SizingMode where
  | fixedQuantity | fixedSafetyMargin
  deriving DecidableEq, Repr

inductive SizingFailure where
  | attributeError (name : String)
  | overflowError
  deriving DecidableEq, Repr

/-- The first integer that is next to no double. -/
def doubleRange : ℕ := 2 ^ 1024 - 2 ^ 970

/-- `float` of an integer. -/
def floatOf (n : ℕ) : Except SizingFailure ℚ :=
  if n < doubleRange then .ok n else .error .overflowError

/-- The mode and the scalars `a`, `b` and `c`. A configuration by volatility has no margin to read,
since every type but the first goes the way of the second. -/
def kernelSizingParams : PositionSizingConfig → Except SizingFailure (SizingMode × ℚ × ℚ × ℚ)
  | .fixedQuantity c => .ok (.fixedQuantity, c.quantity, 0, 0)
  | .fixedSafetyMargin c => do
    let maxC ← floatOf (c.maxContracts.getD 0)
    let minC ← floatOf c.minContracts
    return (.fixedSafetyMargin, c.safetyMarginPerContract, minC, maxC)
  | .inverseVolatility _ => .error (.attributeError "safety_margin_per_contract")

/-- The first number whose double is 2^63. -/
def int64Range : ℕ := 2 ^ 63 - 512

/-- `int` on a float in compiled code: towards zero, and the least integer of 64 bits for what is out
of their range. -/
def int64 (x : ℚ) : ℤ :=
  if x < int64Range then max (if 0 ≤ x then ⌊x⌋ else ⌈x⌉) (-2 ^ 63) else -2 ^ 63

def computeQuantity (capital : ℚ) (mode : SizingMode) (a b c : ℚ) : ℚ :=
  match mode with
  | .fixedQuantity => a
  | .fixedSafetyMargin =>
    let whole := int64 (capital / a)
    let qty := if 0 < c then (if int64 c < whole then int64 c else whole) else whole
    let minC := int64 b
    if qty < minC then (if 0 < minC ∧ qty = 0 then minC else 0)
    else if qty ≤ 0 then 0 else qty

/-- The quantity that the kernel trades at a capital; zero is no order. -/
def tickQuantity (config : PositionSizingConfig) (capital : ℚ) : Except SizingFailure ℚ := do
  let (mode, a, b, c) ← kernelSizingParams config
  return computeQuantity capital mode a b c

/-- The quantity of the candle sizer's order; zero is no order. -/
def candleQuantity (config : PositionSizingConfig) (signal : Signal) (bar : SizingBar)
    (capital : ℚ) : ℚ :=
  ((buildPositionSizer config).sizeSignal signal bar capital).getD 0

/-! ## Agreement -/

/-- The order of an entry signal of full strength. -/
structure FullEntry (signal : Signal) : Prop where
  entry : signal.action = .buy ∨ signal.action = .sell
  strength : signal.strength = 1

/-- For capitals and debts up to the bound the kernel trades what the candle sizer orders, whatever the bar, and
neither trades less with more capital. -/
structure SizingAgrees (config : PositionSizingConfig) (bound : ℚ) : Prop where
  agree : ∀ signal, FullEntry signal → ∀ bar capital, |capital| ≤ bound →
    tickQuantity config capital = .ok (candleQuantity config signal bar capital)
  candle_mono : ∀ signal, FullEntry signal → ∀ bar,
    MonotoneOn (candleQuantity config signal bar) (Set.Icc (-bound) bound)
  tick_mono : ∀ {capital capital' q q' : ℚ}, |capital| ≤ bound → |capital'| ≤ bound →
    capital ≤ capital' →
    tickQuantity config capital = .ok q → tickQuantity config capital' = .ok q' → q ≤ q'

/-- No least number of contracts and a limit that is a float; where the bound is worth a contract,
both the contracts that it is worth and the limit are in the range of 64 bits, and the limit is not
zero. -/
structure SameMargin (c : FixedSafetyMarginPositionSizing) (bound : ℚ) : Prop where
  min_zero : c.minContracts = 0
  limit_float : ∀ m ∈ c.maxContracts, m < doubleRange
  range : c.safetyMarginPerContract ≤ bound → bound / c.safetyMarginPerContract < int64Range
  limit : c.safetyMarginPerContract ≤ bound → ∀ m ∈ c.maxContracts, 0 < m ∧ m < int64Range

/-- A whole fixed quantity, or a margin on which both paths compute alike up to the bound. -/
def SameSizing (bound : ℚ) : PositionSizingConfig → Prop
  | .fixedQuantity c => (⌊c.quantity⌋ : ℚ) = c.quantity
  | .fixedSafetyMargin c => SameMargin c bound
  | .inverseVolatility _ => False

theorem FullEntry.sizeSignal {signal : Signal} (h : FullEntry signal) (sizer : PositionSizer)
    (bar : SizingBar) (capital : ℚ) :
    sizer.sizeSignal signal bar capital = match sizer with
      | .fixedQuantity s => s.size signal
      | .fixedSafetyMargin s => scaled s.scaleBySignalStrength signal (s.targetContracts capital)
      | .inverseVolatility s =>
        (s.targetContracts bar capital).bind (scaled s.scaleBySignalStrength signal) := by
  have hentry : ¬ (signal.action = .hold ∨ signal.action = .close) := by
    obtain haction | haction := h.entry
    · simp [haction]
    · simp [haction]
  cases sizer with
  | fixedQuantity s => exact if_neg hentry
  | fixedSafetyMargin s => exact if_neg hentry
  | inverseVolatility s => exact if_neg hentry

theorem FullEntry.scaled_getD {signal : Signal} (h : FullEntry signal) (scale : Bool) (n : ℤ) :
    (scaled scale signal n).getD 0 = ((max n 0 : ℤ) : ℚ) := by
  unfold scaled
  rw [h.strength, mul_one, Int.floor_intCast]
  split
  next hn => rw [max_eq_right hn, Option.getD_none, Int.cast_zero]
  next hn =>
    rw [max_eq_left (not_le.mp hn).le]
    split <;> rfl

theorem FullEntry.size_getD {signal : Signal} (h : FullEntry signal) (s : FixedQuantitySizer) :
    (s.size signal).getD 0 = (⌊s.quantity⌋ : ℚ) := by
  have hquantity : (if s.scaleBySignalStrength then s.quantity * signal.strength else s.quantity) =
      s.quantity := by
    rw [h.strength, mul_one, ite_self]
  have hnonneg : 0 ≤ ⌊s.quantity⌋ := Int.floor_nonneg.mpr s.quantity_pos.le
  rw [FixedQuantitySizer.size, hquantity]
  split
  next hle => rw [le_antisymm hle hnonneg, Option.getD_none, Int.cast_zero]
  · rfl

theorem int64_of_lt {x : ℚ} (hlow : 0 ≤ x) (hx : x < int64Range) : int64 x = ⌊x⌋ := by
  have hfloor : 0 ≤ ⌊x⌋ := Int.floor_nonneg.mpr hlow
  rw [int64, if_pos hx, if_pos hlow, max_eq_left (by omega)]

theorem int64_natCast {n : ℕ} (hn : n < int64Range) : int64 (n : ℚ) = n := by
  rw [int64_of_lt (Nat.cast_nonneg n) (by exact_mod_cast hn), Int.floor_natCast]

theorem int64_of_ge {x : ℚ} (hx : (int64Range : ℚ) ≤ x) : int64 x = -2 ^ 63 := by
  rw [int64, if_neg (not_lt.mpr hx)]

theorem int64_nonpos {x : ℚ} (hx : x < 1) : int64 x ≤ 0 := by
  unfold int64
  split
  · apply max_le _ (by norm_num)
    split
    · exact Int.lt_add_one_iff.mp (Int.floor_lt.mpr (by simpa using hx))
    next hneg => exact Int.ceil_le.mpr (by simpa using (not_le.mp hneg).le)
  · norm_num

theorem one_lt_sub_pow {m n : ℕ} (hm : 0 < m) (h : m < n) : 1 < 2 ^ n - 2 ^ m := by
  have hpow : 2 ^ m * 2 ≤ 2 ^ n := by
    rw [← pow_succ]
    exact Nat.pow_le_pow_right (by decide) h
  have htwo : 2 ≤ 2 ^ m := Nat.le_self_pow hm.ne' 2
  omega

theorem one_lt_doubleRange : 1 < doubleRange := one_lt_sub_pow (by decide) (by decide)

theorem floatOf_ok {n : ℕ} {x : ℚ} (h : floatOf n = .ok x) : n < doubleRange ∧ x = n := by
  unfold floatOf at h
  split at h
  next hn =>
    cases h
    exact ⟨hn, rfl⟩
  · cases h

def fullBuy : Signal := { symbol := "WIN$", action := .buy }

theorem fullBuy_entry : FullEntry fullBuy := ⟨.inl rfl, rfl⟩

section Margin

variable (c : FixedSafetyMarginPositionSizing)

/-- The contracts of the kernel, where its scalars are floats. -/
theorem tickQuantity_margin (capital : ℚ) (hmax : c.maxContracts.getD 0 < doubleRange)
    (hmin : c.minContracts < doubleRange) :
    tickQuantity (.fixedSafetyMargin c) capital =
      .ok (computeQuantity capital .fixedSafetyMargin c.safetyMarginPerContract c.minContracts
        ((c.maxContracts.getD 0 : ℕ) : ℚ)) := by
  simp only [tickQuantity, kernelSizingParams, floatOf, if_pos hmax, if_pos hmin]
  rfl

theorem computeQuantity_margin (capital a c : ℚ) :
    computeQuantity capital .fixedSafetyMargin a (0 : ℕ) c =
      ((max (if 0 < c then min (int64 (capital / a)) (int64 c) else int64 (capital / a)) 0 : ℤ) :
        ℚ) := by
  have hmin : int64 ((0 : ℕ) : ℚ) = 0 := int64_natCast (by decide)
  have hlimit : (if int64 c < int64 (capital / a) then int64 c else int64 (capital / a)) =
      min (int64 (capital / a)) (int64 c) := by
    rw [min_def]
    split <;> split <;> omega
  unfold computeQuantity
  dsimp only
  rw [hmin, hlimit]
  generalize (if 0 < c then min (int64 (capital / a)) (int64 c) else int64 (capital / a)) = qty
  split
  next hlt => rw [if_neg (fun h => absurd h.1 (lt_irrefl _)), max_eq_right hlt.le, Int.cast_zero]
  · split
    next hle => rw [max_eq_right hle, Int.cast_zero]
    next hpos => rw [max_eq_left (not_le.mp hpos).le]

theorem limited_eq {bound capital : ℚ} (h : SameMargin c bound) (hle : capital ≤ bound) :
    max (if (0 : ℚ) < (c.maxContracts.getD 0 : ℕ) then
        min (int64 (capital / c.safetyMarginPerContract)) (int64 (c.maxContracts.getD 0 : ℕ))
      else int64 (capital / c.safetyMarginPerContract)) 0 =
      max (atMost c.maxContracts ⌊capital / c.safetyMarginPerContract⌋) 0 := by
  obtain hless | hmore := lt_or_ge capital c.safetyMarginPerContract
  · have hratio : capital / c.safetyMarginPerContract < 1 := (div_lt_one c.margin_pos).mpr hless
    have hfloor : ⌊capital / c.safetyMarginPerContract⌋ ≤ 0 :=
      Int.lt_add_one_iff.mp (Int.floor_lt.mpr (by simpa using hratio))
    have hint := int64_nonpos hratio
    rw [max_eq_right, max_eq_right]
    · unfold atMost
      split
      · exact hfloor
      · exact (min_le_left _ _).trans hfloor
    · split
      · exact (min_le_left _ _).trans hint
      · exact hint
  · have hbound := hmore.trans hle
    have hnonneg : 0 ≤ capital / c.safetyMarginPerContract :=
      div_nonneg (c.margin_pos.le.trans hmore) c.margin_pos.le
    rw [int64_of_lt hnonneg ((div_le_div_of_nonneg_right hle c.margin_pos.le).trans_lt
      (h.range hbound))]
    cases hlimit : c.maxContracts with
    | none => rfl
    | some m =>
      obtain ⟨hpos, hm⟩ := h.limit hbound m hlimit
      rw [Option.getD_some, if_pos (by exact_mod_cast hpos), int64_natCast hm]
      rfl

theorem atMost_max (bound : Option ℕ) (n : ℤ) : max (atMost bound n) 0 = atMost bound (max n 0) := by
  cases bound with
  | none => rfl
  | some m =>
    show max (min n m) 0 = min (max n 0) m
    omega

theorem atMost_mono (bound : Option ℕ) : Monotone (atMost bound) := by
  intro m n h
  cases bound with
  | none => exact h
  | some b => exact min_le_min_right _ h

theorem tickQuantity_same {bound capital : ℚ} (h : SameMargin c bound) (hle : capital ≤ bound) :
    tickQuantity (.fixedSafetyMargin c) capital =
      .ok ((max (atMost c.maxContracts ⌊capital / c.safetyMarginPerContract⌋) 0 : ℤ) : ℚ) := by
  have hfloat : 0 < doubleRange := Nat.zero_lt_of_lt one_lt_doubleRange
  have hmax : c.maxContracts.getD 0 < doubleRange := by
    cases hlimit : c.maxContracts with
    | none => exact hfloat
    | some m => exact h.limit_float m hlimit
  rw [tickQuantity_margin c capital hmax (h.min_zero.symm ▸ hfloat), h.min_zero,
    computeQuantity_margin, limited_eq c h hle]

theorem targetContracts_margin (s : FixedSafetyMarginSizer) (hmin : s.minContracts = 0)
    (capital : ℚ) : s.targetContracts capital =
      max (atMost s.maxContracts ⌊capital / s.safetyMarginPerContract⌋) 0 := by
  unfold FixedSafetyMarginSizer.targetContracts
  rw [hmin]
  dsimp only
  split
  next hlt => rw [if_neg fun h => absurd h.1 (by simp), max_eq_right (by simpa using hlt.le)]
  · split
    next hpos => rw [max_eq_left hpos.le]
    next hle => rw [max_eq_right (not_lt.mp hle)]

theorem candleQuantity_margin {signal : Signal} (h : FullEntry signal)
    (hmin : c.minContracts = 0) (bar : SizingBar) (capital : ℚ) :
    candleQuantity (.fixedSafetyMargin c) signal bar capital =
      ((max (atMost c.maxContracts ⌊capital / c.safetyMarginPerContract⌋) 0 : ℤ) : ℚ) := by
  rw [candleQuantity, h.sizeSignal]
  dsimp only [buildPositionSizer]
  rw [h.scaled_getD, targetContracts_margin _ hmin]
  rw [max_eq_left (le_max_right _ 0)]

theorem marginContracts_mono :
    Monotone fun capital : ℚ =>
      ((max (atMost c.maxContracts ⌊capital / c.safetyMarginPerContract⌋) 0 : ℤ) : ℚ) := by
  intro capital capital' h
  have hfloor : ⌊capital / c.safetyMarginPerContract⌋ ≤ ⌊capital' / c.safetyMarginPerContract⌋ :=
    Int.floor_le_floor (div_le_div_of_nonneg_right h c.margin_pos.le)
  have hcontracts := max_le_max_right 0 (atMost_mono c.maxContracts hfloor)
  exact Int.cast_le.mpr hcontracts

theorem margin_agrees {bound : ℚ} (h : SameMargin c bound) :
    SizingAgrees (.fixedSafetyMargin c) bound where
  agree signal hsignal bar capital hle := by
    rw [tickQuantity_same c h (le_of_abs_le hle), candleQuantity_margin c hsignal h.min_zero]
  candle_mono signal hsignal bar := by
    have hcandle : candleQuantity (.fixedSafetyMargin c) signal bar = fun capital : ℚ =>
        ((max (atMost c.maxContracts ⌊capital / c.safetyMarginPerContract⌋) 0 : ℤ) : ℚ) := by
      funext capital
      exact candleQuantity_margin c hsignal h.min_zero bar capital
    rw [hcandle]
    exact (marginContracts_mono c).monotoneOn _
  tick_mono {capital capital' q q'} hbound hbound' hle hq hq' := by
    rw [tickQuantity_same c h (le_of_abs_le hbound)] at hq
    rw [tickQuantity_same c h (le_of_abs_le hbound')] at hq'
    cases hq
    cases hq'
    exact marginContracts_mono c hle

theorem computeQuantity_zero {capital a b x : ℚ}
    (hqty : (if 0 < x then (if int64 x < int64 (capital / a) then int64 x else int64 (capital / a))
      else int64 (capital / a)) ≤ 0)
    (hmin : (if 0 < x then (if int64 x < int64 (capital / a) then int64 x else int64 (capital / a))
      else int64 (capital / a)) < 0 ∨ int64 b ≤ 0) :
    computeQuantity capital .fixedSafetyMargin a b x = 0 := by
  unfold computeQuantity
  dsimp only
  generalize (if 0 < x then (if int64 x < int64 (capital / a) then int64 x
    else int64 (capital / a)) else int64 (capital / a)) = qty at hqty hmin ⊢
  by_cases hlt : qty < int64 b
  · rw [if_pos hlt, if_neg (by omega)]
  · rw [if_neg hlt, if_pos hqty]

theorem computeQuantity_debt {capital a x : ℚ} {n : ℕ} (hlow : -a < capital) (hdebt : capital < 0)
    (hn : n < int64Range) (hx : ¬ int64 x < 0) :
    computeQuantity capital .fixedSafetyMargin a n x = n := by
  have ha : 0 < a := by linarith
  have hratio : capital / a < 0 := div_neg_of_neg_of_pos hdebt ha
  have hzero : int64 (capital / a) = 0 := by
    have hceil : ⌈capital / a⌉ = 0 := by
      rw [Int.ceil_eq_iff]
      push_cast
      exact ⟨by rw [lt_div_iff₀ ha]; linarith, hratio.le⟩
    rw [int64, if_pos (hratio.trans (by exact_mod_cast (by decide : 0 < int64Range))),
      if_neg (not_le.mpr hratio), hceil]
    rfl
  have hqty : (if 0 < x then (if int64 x < 0 then int64 x else 0) else 0) = 0 := by
    rw [if_neg hx, ite_self]
  unfold computeQuantity
  dsimp only
  rw [hzero, hqty, int64_natCast hn]
  split
  next hlt => rw [if_pos ⟨hlt, rfl⟩, Int.cast_natCast]
  next hge =>
    have hnone : n = 0 := by omega
    rw [if_pos le_rfl, hnone, Nat.cast_zero]

theorem candleQuantity_debt {signal : Signal} (h : FullEntry signal) (bar : SizingBar) {capital : ℚ}
    (hlow : -c.safetyMarginPerContract < capital) (hdebt : capital < 0) :
    candleQuantity (.fixedSafetyMargin c) signal bar capital = 0 := by
  have hfloor : ⌊capital / c.safetyMarginPerContract⌋ = -1 := by
    rw [Int.floor_eq_iff]
    push_cast
    exact ⟨by rw [le_div_iff₀ c.margin_pos]; linarith,
      by linarith [div_neg_of_neg_of_pos hdebt c.margin_pos]⟩
  have hlimit : atMost c.maxContracts (-1) = -1 := by
    cases c.maxContracts with
    | none => rfl
    | some m => exact min_eq_left (by omega)
  rw [candleQuantity, h.sizeSignal]
  dsimp only [buildPositionSizer]
  rw [h.scaled_getD, FixedSafetyMarginSizer.targetContracts, hfloor, hlimit]
  dsimp only
  rw [if_pos (by omega), if_neg fun hc => absurd hc.2 (by decide), max_self, Int.cast_zero]

theorem candleQuantity_zero {signal : Signal} (h : FullEntry signal) (bar : SizingBar) :
    candleQuantity (.fixedSafetyMargin c) signal bar 0 = c.minContracts := by
  have hlimit : atMost c.maxContracts 0 = 0 := by
    cases c.maxContracts with
    | none => rfl
    | some m => exact min_eq_left (Int.natCast_nonneg m)
  rw [candleQuantity, h.sizeSignal]
  dsimp only [buildPositionSizer]
  rw [h.scaled_getD, FixedSafetyMarginSizer.targetContracts, zero_div, Int.floor_zero, hlimit]
  dsimp only
  split
  next hlt => rw [if_pos ⟨by exact_mod_cast hlt, rfl⟩, max_eq_left hlt.le, Int.cast_natCast]
  next hge =>
    have hnone : c.minContracts = 0 := by omega
    rw [if_neg (lt_irrefl _), hnone, max_self, Int.cast_zero, Nat.cast_zero]

theorem SizingAgrees.floats {bound : ℚ} (h : SizingAgrees (.fixedSafetyMargin c) bound)
    (hbound : 0 < bound) : c.maxContracts.getD 0 < doubleRange ∧
      c.minContracts < doubleRange := by
  have hagree := h.agree fullBuy fullBuy_entry { price := 1 } 0 (by simpa using hbound.le)
  simp only [tickQuantity, kernelSizingParams] at hagree
  cases hmax : floatOf (c.maxContracts.getD 0) with
  | error e =>
    rw [hmax] at hagree
    cases hagree
  | ok maxC =>
    cases hmin : floatOf c.minContracts with
    | error e =>
      rw [hmax, hmin] at hagree
      cases hagree
    | ok minC => exact ⟨(floatOf_ok hmax).1, (floatOf_ok hmin).1⟩

theorem SizingAgrees.compute {bound : ℚ} (h : SizingAgrees (.fixedSafetyMargin c) bound)
    (hbound : 0 < bound) (capital : ℚ) (hle : |capital| ≤ bound) :
    computeQuantity capital .fixedSafetyMargin c.safetyMarginPerContract c.minContracts
      ((c.maxContracts.getD 0 : ℕ) : ℚ) =
        candleQuantity (.fixedSafetyMargin c) fullBuy { price := 1 } capital := by
  obtain ⟨hmax, hmin⟩ := h.floats c hbound
  have hagree := h.agree fullBuy fullBuy_entry { price := 1 } capital hle
  rw [tickQuantity_margin c capital hmax hmin] at hagree
  exact Except.ok.inj hagree

theorem SizingAgrees.min_zero {bound : ℚ} (h : SizingAgrees (.fixedSafetyMargin c) bound)
    (hbound : 0 < bound) : c.minContracts = 0 := by
  have hzero := h.compute c hbound 0 (by simpa using hbound.le)
  rw [candleQuantity_zero c fullBuy_entry] at hzero
  by_cases hlimit : int64 ((c.maxContracts.getD 0 : ℕ) : ℚ) < 0
  · have hpos : (0 : ℚ) < (c.maxContracts.getD 0 : ℕ) := by
      by_contra hnone
      have hgetD : c.maxContracts.getD 0 = 0 := by simpa using hnone
      rw [hgetD, int64_natCast (by decide)] at hlimit
      exact absurd hlimit (by decide)
    have hint : int64 (0 / c.safetyMarginPerContract) = 0 := by
      rw [zero_div]
      decide +kernel
    rw [computeQuantity_zero] at hzero
    · exact_mod_cast hzero.symm
    all_goals rw [if_pos hpos, hint, if_pos hlimit]
    · exact hlimit.le
    · exact .inl hlimit
  · by_cases hmin : c.minContracts < int64Range
    · obtain ⟨debt, hdebt, hsmall⟩ := exists_between (lt_min hbound c.margin_pos)
      obtain ⟨hwithin, hmargin⟩ := lt_min_iff.mp hsmall
      have hlow : -c.safetyMarginPerContract < -debt := neg_lt_neg hmargin
      have hneg : -debt < 0 := neg_lt_zero.mpr hdebt
      have hagree := h.compute c hbound (-debt)
        (by rw [abs_neg, abs_of_pos hdebt]; exact hwithin.le)
      rw [candleQuantity_debt c fullBuy_entry _ hlow hneg,
        computeQuantity_debt hlow hneg hmin hlimit] at hagree
      exact_mod_cast hagree
    · have hint : int64 (0 / c.safetyMarginPerContract) = 0 := by
        rw [zero_div]
        decide +kernel
      rw [computeQuantity_zero] at hzero
      · exact_mod_cast hzero.symm
      · rw [hint, if_neg hlimit, ite_self]
      · rw [int64_of_ge (x := (c.minContracts : ℚ)) (by exact_mod_cast not_lt.mp hmin)]
        exact .inr (by norm_num)

theorem SizingAgrees.sameMargin {bound : ℚ} (h : SizingAgrees (.fixedSafetyMargin c) bound)
    (hbound : 0 < bound) : SameMargin c bound := by
  have hmin := h.min_zero c hbound
  have hcontracts : ∀ capital, 0 ≤ capital → capital ≤ bound →
      max (if (0 : ℚ) < (c.maxContracts.getD 0 : ℕ) then
          min (int64 (capital / c.safetyMarginPerContract)) (int64 (c.maxContracts.getD 0 : ℕ))
        else int64 (capital / c.safetyMarginPerContract)) 0 =
        max (atMost c.maxContracts ⌊capital / c.safetyMarginPerContract⌋) 0 := by
    intro capital hnonneg hle
    have hagree := h.compute c hbound capital (by rwa [abs_of_nonneg hnonneg])
    rw [hmin, computeQuantity_margin, candleQuantity_margin c fullBuy_entry hmin] at hagree
    exact_mod_cast hagree
  have hlimit : c.safetyMarginPerContract ≤ bound →
      ∀ m ∈ c.maxContracts, 0 < m ∧ m < int64Range := by
    intro hle m hm
    have hone := hcontracts _ c.margin_pos.le hle
    have hint : int64 1 = 1 := by decide +kernel
    rw [div_self c.margin_pos.ne', hint, Int.floor_one, show c.maxContracts = some m from hm,
      Option.getD_some] at hone
    change _ = max (min (1 : ℤ) m) 0 at hone
    have hpos : 0 < m := by
      by_contra hnone
      have hzero : m = 0 := by omega
      subst hzero
      rw [if_neg (by simp)] at hone
      exact absurd hone (by decide)
    refine ⟨hpos, ?_⟩
    by_contra hge
    rw [if_pos (by exact_mod_cast hpos),
      int64_of_ge (x := (m : ℚ)) (by exact_mod_cast not_lt.mp hge)] at hone
    omega
  refine ⟨hmin, fun m hm => ?_, fun hle => ?_, hlimit⟩
  · have hmax := (h.floats c hbound).1
    rw [show c.maxContracts = some m from hm, Option.getD_some] at hmax
    exact hmax
  · by_contra hge
    have hbig := not_lt.mp hge
    have hall := hcontracts bound hbound.le le_rfl
    rw [int64_of_ge hbig] at hall
    have hfloor : 1 ≤ ⌊bound / c.safetyMarginPerContract⌋ := by
      refine Int.le_floor.mpr ?_
      push_cast
      exact (one_le_div c.margin_pos).mpr hle
    cases hm : c.maxContracts with
    | none =>
      rw [hm] at hall
      change max (if (0 : ℚ) < ((0 : ℕ) : ℚ) then _ else _) 0 =
        max ⌊bound / c.safetyMarginPerContract⌋ 0 at hall
      rw [if_neg (by simp)] at hall
      omega
    | some m =>
      have hpos := (hlimit hle m hm).1
      rw [hm, Option.getD_some, if_pos (by exact_mod_cast hpos)] at hall
      change max (min (-2 ^ 63) _) 0 = max (min _ (m : ℤ)) 0 at hall
      omega

end Margin

theorem candleQuantity_fixed {signal : Signal} (h : FullEntry signal) (bar : SizingBar)
    (c : FixedQuantityPositionSizing) (capital : ℚ) :
    candleQuantity (.fixedQuantity c) signal bar capital = (⌊c.quantity⌋ : ℚ) := by
  rw [candleQuantity, h.sizeSignal]
  exact h.size_getD _

/-- Tick and candle sizing agree up to a bound on capital and debt exactly for whole fixed quantities
and for margins without a least number of contracts whose limit is not zero, while the contracts are
in the range of the kernel's integers. -/
theorem sizingAgrees_iff (config : PositionSizingConfig) (bound : Set.Ioi (0 : ℚ)) :
    SizingAgrees config bound ↔ SameSizing bound config := by
  have hbound : (0 : ℚ) < bound := bound.2
  have hnone : |(0 : ℚ)| ≤ bound := by simpa using hbound.le
  cases config with
  | fixedQuantity c =>
    constructor
    · intro h
      have hagree := h.agree fullBuy fullBuy_entry { price := 1 } 0 hnone
      rw [candleQuantity_fixed fullBuy_entry] at hagree
      exact (Except.ok.inj hagree).symm
    · intro hwhole
      refine ⟨fun signal h bar capital _ => ?_, fun signal h bar capital _ capital' _ _ => ?_, ?_⟩
      · rw [candleQuantity_fixed h, show (⌊c.quantity⌋ : ℚ) = c.quantity from hwhole]
        rfl
      · rw [candleQuantity_fixed h, candleQuantity_fixed h]
      · intro capital capital' q q' _ _ _ hq hq'
        exact (Except.ok.inj (hq.symm.trans hq')).le
  | fixedSafetyMargin c => exact ⟨fun h => h.sameMargin c hbound, margin_agrees c⟩
  | inverseVolatility c =>
    constructor
    · intro h
      cases h.agree fullBuy fullBuy_entry { price := 1 } 0 hnone
    · exact False.elim

theorem unlimited_gte_min : ∀ m ∈ (none : Option ℕ), 1 ≤ m := by
  intro m hm
  cases hm

/-- The default configuration of a margin. -/
def defaultMargin : FixedSafetyMarginPositionSizing where
  margin_pos := by decide
  max_gte_min := unlimited_gte_min

/-- At a debt of half a margin the kernel trades a contract and the sizer orders none. -/
theorem tick_trades_in_debt :
    tickQuantity (.fixedSafetyMargin defaultMargin) (-5000 / 2) = .ok 1 ∧
      candleQuantity (.fixedSafetyMargin defaultMargin) fullBuy { price := 1 } (-5000 / 2) = 0 ∧
      ∀ bound : Set.Ioi (0 : ℚ), ¬ SizingAgrees (.fixedSafetyMargin defaultMargin) bound := by
  have hlow : -(5000 : ℚ) < -5000 / 2 := by norm_num
  have hdebt : (-5000 / 2 : ℚ) < 0 := by norm_num
  refine ⟨?_, candleQuantity_debt defaultMargin fullBuy_entry _ hlow hdebt, fun bound h => ?_⟩
  · have htick := computeQuantity_debt (x := ((0 : ℕ) : ℚ)) (n := 1) hlow hdebt (by decide)
      (by decide +kernel)
    rw [Nat.cast_one] at htick
    exact (tickQuantity_margin defaultMargin _ (Nat.zero_lt_of_lt one_lt_doubleRange)
      one_lt_doubleRange).trans (congrArg Except.ok htick)
  · exact one_ne_zero (h.min_zero defaultMargin bound.2)

end QBackend.Backtesting
