import QBackend.CausalSeries
import Mathlib.Data.Rat.Defs
import Mathlib.Data.Nat.Sqrt

/-!
# Indicator kernels

`moving_averages.py`, `technical_indicators.py`, `transforms.py` and the channel of
`lai_lau_common.py`, over any type with the operations of floating point numbers. A rolling value
needs a full window of numbers, since every `min_periods` here is the window; the exponential
average is the recurrence of pandas with `adjust=False`.
-/

namespace QBackend.GenomeDsl

open CausalSeries

/-- The Python exceptions that evaluation can raise. -/
inductive Failure where
  | keyError (key : String)
  | valueError (message : String)
  | typeError (message : String)
  | zeroDivisionError
  | indexError
  | recursionError
  deriving DecidableEq, Repr

/-- The operations on floats that the kernels use; `ofString` is `float(str)` and `reprRat` is the
text of a literal. -/
class PriceFloat (F : Type) where
  nan : F
  isNaN : F → Bool
  ofRat : ℚ → F
  add : F → F → F
  sub : F → F → F
  mul : F → F → F
  div : F → F → F
  abs : F → F
  log : F → F
  sqrt : F → F
  sign : F → F
  lt : F → F → Bool
  le : F → F → Bool
  ofString : String → Option F
  reprRat : ℚ → String

open PriceFloat

section Kernels

variable {F : Type} [PriceFloat F]

/-! ## Rolling values -/

def observed (xs : List F) : List F := xs.filter (fun x => !isNaN x)

def total (xs : List F) : F := xs.foldl add (ofRat 0)

def mean (xs : List F) : F := div (total xs) (ofRat xs.length)

/-- The sample variance, which needs two values. -/
def variance (xs : List F) : F :=
  if xs.length < 2 then nan
  else div (total (xs.map fun x => mul (sub x (mean xs)) (sub x (mean xs))))
    (ofRat (xs.length - 1))

def std (xs : List F) : F := sqrt (variance xs)

def largest : List F → F
  | [] => nan
  | x :: xs => xs.foldl (fun a b => if lt a b then b else a) x

def smallest : List F → F
  | [] => nan
  | x :: xs => xs.foldl (fun a b => if lt b a then b else a) x

/-- `rolling(window).agg()`. Infinite values are observed, where pandas reads them as missing. -/
def rollingValue (window : ℤ) (agg : List F → F) (xs : List F) : Except Failure (List F) :=
  if window < 0 then .error (.valueError "window must be an integer 0 or greater")
  else .ok (rolling window.toNat (fun w =>
    let obs := observed w
    if max window.toNat 1 ≤ obs.length then agg obs else nan) xs)

/-! ## Exponential averages -/

structure EwmState (F : Type) where
  weighted : F
  oldWeight : F
  nobs : ℕ

def one : F := ofRat 1

/-- One row of the recurrence; the first row has no state before it. -/
def ewmStep (alpha : F) (minPeriods : ℕ) (s : Option (EwmState F)) (cur : F) :
    Option (EwmState F) × F :=
  let seen := if isNaN cur then 0 else 1
  let next : EwmState F := match s with
    | none => ⟨cur, one, seen⟩
    | some s =>
      if isNaN s.weighted then
        if isNaN cur then { s with nobs := s.nobs + seen } else ⟨cur, s.oldWeight, s.nobs + seen⟩
      else
        let oldWeight := mul s.oldWeight (sub one alpha)
        if isNaN cur then ⟨s.weighted, oldWeight, s.nobs + seen⟩
        else if le s.weighted cur && le cur s.weighted then ⟨s.weighted, one, s.nobs + seen⟩
        else
          ⟨div (add (mul oldWeight s.weighted) (mul alpha cur)) (add oldWeight alpha), one,
            s.nobs + seen⟩
  (some next, if minPeriods ≤ next.nobs then next.weighted else nan)

def ewmMean (alpha : ℚ) (minPeriods : ℕ) (xs : List F) : List F :=
  scan (ewmStep (ofRat alpha) (max minPeriods 1)) none xs

/-- `ewm(span=span, adjust=False).mean()`. -/
def ewmSpan (span : ℤ) (xs : List F) : Except Failure (List F) :=
  if span < 1 then .error (.valueError "span must satisfy: span >= 1")
  else .ok (ewmMean (2 / (span + 1)) 0 xs)

/-- `ewm(alpha=1 / period, min_periods=minPeriods, adjust=False).mean()`. -/
def ewmAlpha (period : ℤ) (minPeriods : ℕ) (xs : List F) : Except Failure (List F) :=
  if period = 0 then .error .zeroDivisionError
  else if period < 0 then .error (.valueError "alpha must satisfy: 0 < alpha <= 1")
  else .ok (ewmMean (1 / period) minPeriods xs)

/-! ## Moving averages -/

/-- `str.strip()`. -/
def strip (s : String) : String :=
  let start := s.toList.dropWhile Char.isWhitespace
  String.ofList (start.reverse.dropWhile Char.isWhitespace).reverse

inductive MaType where
  | sma | ema | wma | smma | hma
  deriving DecidableEq, Repr

def validMaTypes : List (String × MaType) :=
  [("sma", .sma), ("ema", .ema), ("wma", .wma), ("smma", .smma), ("hma", .hma)]

def normalizeMaType (value : String) : Except Failure MaType :=
  match validMaTypes.lookup (strip value.toLower) with
  | some maType => .ok maType
  | none => .error (.valueError ("Invalid MA type '" ++ value ++
      "'. Must be one of: ema, hma, sma, smma, wma"))

def weightedMean (period : ℕ) (xs : List F) : F :=
  let weights := (List.range period).map fun i => (ofRat (i + 1) : F)
  div (total (List.zipWith mul xs weights)) (total weights)

def wma (period : ℤ) (xs : List F) : Except Failure (List F) :=
  rollingValue period (weightedMean period.toNat) xs

def hma (period : ℤ) (xs : List F) : Except Failure (List F) := do
  let half ← wma (max (period / 2) 1) xs
  let full ← wma period xs
  wma (max (Nat.sqrt period.toNat) 1)
    (List.zipWith (fun h f => sub (mul (ofRat 2) h) f) half full)

def computeMa (xs : List F) (period : ℤ) (maType : MaType) : Except Failure (List F) :=
  if period < 1 then .error (.valueError "MA period must be at least 1.")
  else match maType with
    | .sma => rollingValue period mean xs
    | .ema => ewmSpan period xs
    | .wma => wma period xs
    | .smma => ewmAlpha period 0 xs
    | .hma => hma period xs

/-! ## Indicators -/

def previous (xs : List F) : List F := shift nan 1 xs

/-- `x / x.shift(lookback) - 1.0`. -/
def relativeChange (lookback : ℤ) (xs : List F) : List F :=
  List.zipWith (fun x p => sub (div x p) one) xs (shift nan lookback xs)

def clipLow (x : F) : F := if lt x (ofRat 0) then ofRat 0 else x

def computeRsi (close : List F) (period : ℤ) : Except Failure (List F) := do
  let delta := List.zipWith sub close (previous close)
  let avgGain ← ewmAlpha period period.toNat (delta.map clipLow)
  let avgLoss ← ewmAlpha period period.toNat (delta.map fun d => clipLow (sub (ofRat 0) d))
  pure (List.zipWith (fun g l =>
    sub (ofRat 100) (div (ofRat 100) (add one (div g l)))) avgGain avgLoss)

/-- The largest of the values that are numbers. -/
def largestNumber (xs : List F) : F := largest (observed xs)

def trueRange (high low close : List F) : List F :=
  List.zipWith (fun hl p => largestNumber
    [sub hl.1 hl.2, abs (sub hl.1 p), abs (sub hl.2 p)]) (List.zip high low) (previous close)

def computeAtr (high low close : List F) (period : ℤ) : Except Failure (List F) :=
  ewmAlpha period period.toNat (trueRange high low close)

def computeMacd (close : List F) (fast slow signal : ℤ) :
    Except Failure (List F × List F × List F) := do
  let fastEma ← ewmSpan fast close
  let slowEma ← ewmSpan slow close
  let macdLine := List.zipWith sub fastEma slowEma
  let signalLine ← ewmSpan signal macdLine
  pure (macdLine, signalLine, List.zipWith sub macdLine signalLine)

def computeBollingerBands (close : List F) (period : ℤ) (numStd : F) :
    Except Failure (List F × List F × List F) := do
  let middle ← rollingValue period mean close
  let deviation ← rollingValue period std close
  pure (List.zipWith (fun m s => add m (mul numStd s)) middle deviation, middle,
    List.zipWith (fun m s => sub m (mul numStd s)) middle deviation)

def computeDonchianChannels (high low : List F) (period : ℤ) :
    Except Failure (List F × List F) := do
  let upper ← rollingValue period largest high
  let lower ← rollingValue period smallest low
  pure (previous upper, previous lower)

def logReturns (close : List F) : List F :=
  List.zipWith (fun x p => log (div x p)) close (previous close)

def computeRealizedVol (close : List F) (window : ℤ) : Except Failure (List F) := do
  let deviation ← rollingValue window std (logReturns close)
  pure (deviation.map fun s => mul s (sqrt (ofRat 252)))

def rogersSatchell (opn high low close : List F) : List F :=
  List.zipWith (fun oh lc =>
    let u := log (div oh.2 oh.1)
    let d := log (div lc.1 oh.1)
    let c := log (div lc.2 oh.1)
    add (mul u (sub u c)) (mul d (sub d c))) (List.zip opn high) (List.zip low close)

def computeYangZhang (opn high low close : List F) (window : ℤ) : Except Failure (List F) := do
  let overnight := List.zipWith (fun o p => log (div o p)) opn (previous close)
  let openClose := List.zipWith (fun o c => log (div c o)) opn close
  let varOvernight ← rollingValue window variance overnight
  let varOpenClose ← rollingValue window variance openClose
  let meanRs ← rollingValue window mean (rogersSatchell opn high low close)
  if window = 1 then .error .zeroDivisionError
  else
    let k : ℚ := (34 / 100) / (134 / 100 + (window + 1) / (window - 1))
    pure (List.zipWith (fun v rs =>
      sqrt (mul (add (add v.1 (mul (ofRat k) v.2)) (mul (ofRat (1 - k)) rs)) (ofRat 252)))
      (List.zip varOvernight varOpenClose) meanRs)

/-! ## Transforms -/

def computeRollingZscore (xs : List F) (window : ℤ) : Except Failure (List F) := do
  let centre ← rollingValue window mean xs
  let deviation ← rollingValue window std xs
  pure (List.zipWith (fun x ms => div (sub x ms.1) ms.2) xs (List.zip centre deviation))

/-- The loop over the rows; a window without rows fails at its last value. -/
def computeRollingRank (xs : List F) (window : ℤ) : Except Failure (List F) :=
  if window ≤ 0 ∧ xs ≠ [] then .error .indexError
  else .ok (trailing (fun soFar =>
    let values := CausalSeries.window window.toNat soFar
    let current := (soFar.getLast?).getD nan
    if soFar.length < window.toNat ∨ values.any isNaN then nan
    else div (ofRat (values.countP (fun v => le v current))) (ofRat window)) xs)

def computePctChange (xs : List F) (changeBars : ℤ) : Except Failure (List F) :=
  if changeBars < 1 then
    .error (.valueError ("change_bars must be >= 1 (got " ++ toString changeBars ++ ")."))
  else .ok (relativeChange changeBars xs)

def clip (low high x : F) : F := if lt x low then low else if lt high x then high else x

def computeClip (xs : List F) (low high : F) : Except Failure (List F) :=
  if lt high low then .error (.valueError "clip_low must be <= clip_high.")
  else .ok (xs.map (clip low high))

/-- The channel of the last `period` closes before the row, and its band. -/
def computeTrbChannel (close : List F) (period : ℤ) (bandPct : F) :
    Except Failure (List F × List F × List F × List F) := do
  let channelHigh ← rollingValue period largest (previous close)
  let channelLow ← rollingValue period smallest (previous close)
  let band := div bandPct (ofRat 100)
  pure (channelHigh, channelLow, channelHigh.map fun x => mul x (add one band),
    channelLow.map fun x => mul x (sub one band))

end Kernels

/-! ## Exact numbers -/

/-- Rational numbers without rounding, `none` for NaN; logarithms and roots are left out. -/
instance exactPrices : PriceFloat (Option ℚ) where
  nan := none
  isNaN := Option.isNone
  ofRat := some
  add a b := a.bind fun a => b.map fun b => a + b
  sub a b := a.bind fun a => b.map fun b => a - b
  mul a b := a.bind fun a => b.map fun b => a * b
  div a b := a.bind fun a => b.bind fun b => if b = 0 then none else some (a / b)
  abs a := a.map fun a => if a < 0 then -a else a
  log _ := none
  sqrt _ := none
  sign a := a.map fun a => if a < 0 then -1 else if 0 < a then 1 else 0
  lt a b := (a.bind fun a => b.map fun b => decide (a < b)).getD false
  le a b := (a.bind fun a => b.map fun b => decide (a ≤ b)).getD false
  ofString _ := none
  reprRat := toString

end QBackend.GenomeDsl
