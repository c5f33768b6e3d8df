import QBackend.IndicatorKernels
import QBackend.ExecutionDomain
import Mathlib.Data.List.Dedup

/-!
# OHLCV frames and session context

The frames that strategies are given and `session_context/compute.py` over them. A frame is indexed
by the naive times of its bars. Bars are at least a minute apart, as the smallest timeframe has
them, and their opens are numbers.
-/

namespace QBackend.GenomeDsl

open CausalSeries PriceFloat
open Execution (Time)

/-! ## Frames -/

structure Row (F : Type) where
  time : Time
  opn : F
  high : F
  low : F
  close : F
  volume : F
  exog : String → F

def minute : Time := 60000000

def day : Time := 1440 * minute

/-- Rows in the order of time, with the names of the exogenous columns that were attached. -/
structure Frame (F : Type) [PriceFloat F] where
  rows : List (Row F)
  exogColumns : List String := []
  spaced : rows.Pairwise fun a b => a.time + minute ≤ b.time
  opens : ∀ r ∈ rows, isNaN r.opn = false

section Frames

variable {F : Type} [PriceFloat F]

/-- The first `n` rows. -/
def Frame.take (frame : Frame F) (n : ℕ) : Frame F where
  rows := frame.rows.take n
  exogColumns := frame.exogColumns
  spaced := frame.spaced.sublist (List.take_sublist n _)
  opens r hr := frame.opens r (List.mem_of_mem_take hr)

def Frame.column (frame : Frame F) (f : Row F → F) : List F := frame.rows.map f

/-! ## Times of day -/

def Row.date (r : Row F) : ℤ := r.time / day

def Row.minutesOfDay (r : Row F) : ℤ := r.time % day / minute

/-- Monday is 0; day 0 is a Thursday. -/
def dayOfWeek (date : ℤ) : ℤ := (date + 3) % 7

/-- The month of a day counted from 1970-01-01, by eras of 400 years that begin in March. -/
def monthOfYear (date : ℤ) : ℤ :=
  let z := date + 719468
  let dayOfEra := z % 146097
  let yearOfEra := (dayOfEra - dayOfEra / 1460 + dayOfEra / 36524 - dayOfEra / 146096) / 365
  let dayOfYear := dayOfEra - (365 * yearOfEra + yearOfEra / 4 - yearOfEra / 100)
  let monthFromMarch := (5 * dayOfYear + 2) / 153
  if monthFromMarch < 10 then monthFromMarch + 3 else monthFromMarch - 9

def digit? (c : Char) : Option ℕ := if c.isDigit then some (c.toNat - '0'.toNat) else none

/-- `^([01]?\d|2[0-3]):([0-5]\d)$` on the stripped text. -/
def parseHhmmChars : List Char → Option (ℕ × ℕ)
  | [h, ':', m₁, m₂] => do
    let hour ← digit? h
    let tens ← digit? m₁
    let ones ← digit? m₂
    if tens ≤ 5 then some (hour, 10 * tens + ones) else none
  | [h₁, h₂, ':', m₁, m₂] => do
    let first ← digit? h₁
    let second ← digit? h₂
    let tens ← digit? m₁
    let ones ← digit? m₂
    if (first ≤ 1 ∨ first = 2 ∧ second ≤ 3) ∧ tens ≤ 5 then
      some (10 * first + second, 10 * tens + ones)
    else none
  | _ => none

def parseHhmm (value : String) : Except Failure (ℕ × ℕ) :=
  match parseHhmmChars (strip value).toList with
  | some time => .ok time
  | none => .error (.valueError ("Expected HH:MM session time, got '" ++ value ++ "'."))

def hhmmToMinutes (value : String) : Except Failure ℤ := do
  let time ← parseHhmm value
  pure (time.1 * 60 + time.2)

/-- The minutes since the open of the session, none before it. -/
def minutesFromOpen (openMinutes : ℤ) (r : Row F) : Option ℤ :=
  if openMinutes ≤ r.minutesOfDay then some (r.minutesOfDay - openMinutes) else none

def ofInt (n : ℤ) : F := ofRat n

def computeMinutesFromOpen (frame : Frame F) (sessionOpen : String) :
    Except Failure (List F) := do
  let openMinutes ← hhmmToMinutes sessionOpen
  pure (frame.rows.map fun r => ((minutesFromOpen openMinutes r).map ofInt).getD nan)

def computeTimeOfDay (frame : Frame F) (sessionOpen sessionClose : String) :
    Except Failure (List F) := do
  let openMinutes ← hhmmToMinutes sessionOpen
  let closeMinutes ← hhmmToMinutes sessionClose
  if closeMinutes ≤ openMinutes then
    .error (.valueError "session_close must be after session_open.")
  else
    pure (frame.rows.map fun r =>
      let clamped := min (max r.minutesOfDay openMinutes) closeMinutes
      div (ofInt (clamped - openMinutes)) (ofInt (closeMinutes - openMinutes)))

def computeDayOfWeek (frame : Frame F) : List F :=
  frame.rows.map fun r => ofInt (dayOfWeek r.date)

def computeMonthOfYear (frame : Frame F) : List F :=
  frame.rows.map fun r => ofInt (monthOfYear r.date)

def computeSessionWindow (frame : Frame F) (windowFrom windowTo : String) :
    Except Failure (List Bool) := do
  let start ← hhmmToMinutes windowFrom
  let stop ← hhmmToMinutes windowTo
  if stop ≤ start then .error (.valueError "window_from must be before window_to.")
  else pure (frame.rows.map fun r => decide (start ≤ r.minutesOfDay ∧ r.minutesOfDay ≤ stop))

/-! ## Sessions -/

/-- The dates of the rows, sorted. -/
def sessionDates (rows : List (Row F)) : List ℤ :=
  (rows.map Row.date).dedup.mergeSort (fun a b => decide (a ≤ b))

def sessionRows (rows : List (Row F)) (date : ℤ) : List (Row F) :=
  rows.filter fun r => r.date = date

def firstNumber (xs : List F) : F := ((observed xs).head?).getD nan

def lastNumber (xs : List F) : F := ((observed xs).getLast?).getD nan

def sessionOpen (rows : List (Row F)) : F := firstNumber (rows.map Row.opn)

def sessionHigh (rows : List (Row F)) : F := largest (observed (rows.map Row.high))

def sessionLow (rows : List (Row F)) : F := smallest (observed (rows.map Row.low))

def sessionClose (rows : List (Row F)) : F := lastNumber (rows.map Row.close)

/-- One value for each session, in the order of dates. -/
def sessionSeries (rows : List (Row F)) (agg : List (Row F) → F) : List F :=
  (sessionDates rows).map fun d => agg (sessionRows rows d)

/-- The value of its session at each row. -/
def mapSessions (rows : List (Row F)) (values : List F) : List F :=
  rows.map fun r => (((sessionDates rows).zip values).lookup r.date).getD nan

/-- `_map_previous_session_values`, and `_map_previous_trading_day` on the same days. -/
def previousSessionValues (rows : List (Row F)) (agg : List (Row F) → F) : List F :=
  mapSessions rows (previous (sessionSeries rows agg))

def sessionGap (rows : List (Row F)) : List F :=
  mapSessions rows (List.zipWith (fun o p => sub (div o p) one) (sessionSeries rows sessionOpen)
    (previous (sessionSeries rows sessionClose)))

def d1Trend (rows : List (Row F)) (lookback : ℤ) : List F :=
  mapSessions rows (previous
    ((relativeChange lookback (sessionSeries rows sessionClose)).map sign))

def d1Volatility (rows : List (Row F)) (window : ℤ) : Except Failure (List F) := do
  let volatility ← computeRealizedVol (sessionSeries rows sessionClose) window
  pure (mapSessions rows (previous volatility))

def mapPreviousSession (frame : Frame F) (agg : List (Row F) → F) : List F :=
  previousSessionValues frame.rows agg

def computeSessionGap (frame : Frame F) : List F := sessionGap frame.rows

def d1TrendLookback : ℤ := 5

def d1VolWindow : ℤ := 21

def computeD1Trend (frame : Frame F) : List F := d1Trend frame.rows d1TrendLookback

def computeD1Volatility (frame : Frame F) : Except Failure (List F) :=
  d1Volatility frame.rows d1VolWindow

/-! ## Regimes -/

def zeroToNaN (x : F) : F := if le x (ofRat 0) && le (ofRat 0) x then nan else x

def computeVolRegime (source : List F) (window regimeLookback : ℤ) : Except Failure (List F) := do
  let vol ← computeRealizedVol source window
  computeRollingRank vol regimeLookback

def computeTrendRegime (source : List F) (maPeriod : ℤ) : Except Failure (List F) := do
  let ma ← rollingValue maPeriod mean source
  let vol ← computeRealizedVol source maPeriod
  pure (List.zipWith (fun x mv => div (sub x mv.1) (zeroToNaN mv.2)) source (List.zip ma vol))

/-- The window is not used; the period of the ATR is its default. -/
def computeRangeCompression (high low close : List F) (regimeLookback : ℤ) :
    Except Failure (List F) := do
  let atr ← computeAtr high low close 14
  computeRollingRank (List.zipWith (fun hl a => div (sub hl.1 hl.2) (zeroToNaN a))
    (List.zip high low) atr) regimeLookback

def computeDistanceAtr (close level high low : List F) (atrPeriod : ℤ) :
    Except Failure (List F) := do
  let atr ← computeAtr high low close atrPeriod
  pure (List.zipWith (fun cl a => div (sub cl.1 cl.2) (zeroToNaN a)) (List.zip close level) atr)

/-- The rows of a day up to `rangeMinutes` after the open. -/
def openingRange (rows : List (Row F)) (openMinutes rangeMinutes date : ℤ) : List (Row F) :=
  rows.filter fun s => decide (s.date = date) &&
    (minutesFromOpen openMinutes s).any fun k => decide (k ≤ rangeMinutes)

/-- The extreme of the opening range of its day at each row from its end on. -/
def openingLevel (rows : List (Row F)) (openMinutes rangeMinutes : ℤ)
    (extreme : List (Row F) → F) : List F :=
  rows.map fun r =>
    if (minutesFromOpen openMinutes r).any fun m => decide (rangeMinutes ≤ m) then
      extreme (openingRange rows openMinutes rangeMinutes r.date)
    else nan

def openingRangeLevels (rows : List (Row F)) (sessionOpen : String) (rangeMinutes : ℤ) :
    Except Failure (List F × List F) := do
  let openMinutes ← hhmmToMinutes sessionOpen
  pure (openingLevel rows openMinutes rangeMinutes sessionHigh,
    openingLevel rows openMinutes rangeMinutes sessionLow)

def computeOpeningRangeLevels (frame : Frame F) (sessionOpen : String) (rangeMinutes : ℤ) :
    Except Failure (List F × List F) :=
  openingRangeLevels frame.rows sessionOpen rangeMinutes

end Frames

end QBackend.GenomeDsl
