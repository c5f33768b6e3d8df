import QBackend.StrategyEvaluator
import Mathlib.Data.List.TakeWhile
import Mathlib.Data.Rat.Floor
import Mathlib.Tactic.Linarith

/-!
# Walk-forward windows, the lock-box and the bars of a run

`split_windows` of `optimization/walkforward.py`, `compute_lockbox_bounds` of
`optimization/lockbox.py` and the data provider of `DefaultBacktestRunner.from_frame_sliced`. Each
run of a back-test is served the rows between its dates, both ends included, and perhaps some rows
before them on which the engine does not trade.
-/

namespace QBackend.Optimization

open Execution (Time Bar)

/-! ## Windows -/

inductive WindowMode where
  | rolling | anchored
  deriving DecidableEq, Repr

structure WalkForwardConfig where
  trainDays : ℕ
  testDays : ℕ
  mode : WindowMode := .rolling
  minWindows : ℕ := 2
  trainDays_pos : 1 ≤ trainDays
  testDays_pos : 1 ≤ testDays

structure WalkForwardWindow where
  index : ℕ
  trainStart : Time
  trainEnd : Time
  testStart : Time
  testEnd : Time
  deriving DecidableEq, Repr

def oneDay : Time := 86400000000

def WalkForwardConfig.trainDelta (cfg : WalkForwardConfig) : Time := cfg.trainDays * oneDay

def WalkForwardConfig.testDelta (cfg : WalkForwardConfig) : Time := cfg.testDays * oneDay

/-- The window of an index, before it is checked. -/
def windowAt (start stop : Time) (cfg : WalkForwardConfig) (index : ℕ) : WalkForwardWindow :=
  let testStart := start + cfg.trainDelta + index * cfg.testDelta
  { index
    trainStart := match cfg.mode with
      | .rolling => testStart - cfg.trainDelta
      | .anchored => start
    trainEnd := testStart
    testStart
    testEnd := min (testStart + cfg.testDelta) stop }

/-- The loop of `split_windows`. -/
def windowsFrom (start stop : Time) (cfg : WalkForwardConfig) : ℕ → ℕ → List WalkForwardWindow
  | 0, _ => []
  | fuel + 1, index =>
    let w := windowAt start stop cfg index
    if stop ≤ w.testStart then []
    else if w.testEnd - w.testStart < oneDay then []
    else if w.trainEnd - w.trainStart < oneDay then []
    else w :: windowsFrom start stop cfg fuel (index + 1)

/-- Rounds that end the loop, since every test is at least a day long. -/
def windowFuel (start stop : Time) : ℕ := ((stop - start) / oneDay).toNat + 1

def splitWindows (start stop : Time) (cfg : WalkForwardConfig) :
    Except String (List WalkForwardWindow) :=
  if stop ≤ start then .error "start must be before end"
  else
    let windows := windowsFrom start stop cfg (windowFuel start stop) 0
    if windows.length < cfg.minWindows then
      .error ("Date range yields " ++ toString windows.length ++ " walk-forward window(s), " ++
        "but min_windows is " ++ toString cfg.minWindows ++ ". " ++
        "Try a longer history or smaller train_days/test_days.")
    else .ok windows

section Windows

variable {start stop : Time} {cfg : WalkForwardConfig} {w : WalkForwardWindow}

theorem oneDay_le_testDelta (cfg : WalkForwardConfig) : oneDay ≤ cfg.testDelta := by
  have hdays : (1 : ℤ) ≤ cfg.testDays := by exact_mod_cast cfg.testDays_pos
  unfold WalkForwardConfig.testDelta oneDay
  linarith

theorem trainDelta_pos (cfg : WalkForwardConfig) : 0 < cfg.trainDelta := by
  have hdays : (1 : ℤ) ≤ cfg.trainDays := by exact_mod_cast cfg.trainDays_pos
  unfold WalkForwardConfig.trainDelta oneDay
  linarith

theorem windowFuel_enough (start stop : Time) :
    stop - start < (0 + windowFuel start stop : ℕ) * oneDay := by
  have hdiv := Int.lt_ediv_add_one_mul_self (stop - start) (show (0 : ℤ) < oneDay by decide)
  have htoNat := Int.self_le_toNat ((stop - start) / oneDay)
  have hle : ((stop - start) / oneDay + 1) * oneDay ≤ (0 + windowFuel start stop : ℕ) * oneDay := by
    apply mul_le_mul_of_nonneg_right _ (show (0 : ℤ) ≤ oneDay by decide)
    unfold windowFuel
    push_cast
    linarith
  exact hdiv.trans_le hle

/-- What the checks of the loop say about a window. -/
structure Window (start stop : Time) (cfg : WalkForwardConfig) (w : WalkForwardWindow) : Prop where
  eq_windowAt : w = windowAt start stop cfg w.index
  testStart_lt : w.testStart < stop
  test_day : oneDay ≤ w.testEnd - w.testStart
  train_day : oneDay ≤ w.trainEnd - w.trainStart

theorem window_of_mem {fuel index : ℕ} (h : w ∈ windowsFrom start stop cfg fuel index) :
    index ≤ w.index ∧ Window start stop cfg w := by
  induction fuel generalizing index with
  | zero => cases h
  | succ fuel ih =>
    simp only [windowsFrom] at h
    split at h
    · cases h
    next hend =>
      split at h
      · cases h
      next htest =>
        split at h
        · cases h
        next htrain =>
          rcases List.mem_cons.mp h with rfl | h
          · exact ⟨le_rfl, rfl, not_le.mp hend, not_lt.mp htest, not_lt.mp htrain⟩
          · obtain ⟨hindex, hw⟩ := ih h
            exact ⟨by omega, hw⟩

theorem pairwise_windowsFrom (fuel index : ℕ) :
    (windowsFrom start stop cfg fuel index).Pairwise (fun w w' => w.index < w'.index) := by
  induction fuel generalizing index with
  | zero => exact .nil
  | succ fuel ih =>
    simp only [windowsFrom]
    split
    · exact .nil
    · split
      · exact .nil
      · split
        · exact .nil
        · refine List.pairwise_cons.mpr ⟨fun w hw => ?_, ih (index + 1)⟩
          have hindex := (window_of_mem hw).1
          show index < w.index
          omega

theorem windowsFrom_indices (fuel index : ℕ) :
    (windowsFrom start stop cfg fuel index).map WalkForwardWindow.index =
      List.range' index (windowsFrom start stop cfg fuel index).length := by
  induction fuel generalizing index with
  | zero => rfl
  | succ fuel ih =>
    simp only [windowsFrom]
    split
    · rfl
    · split
      · rfl
      · split
        · rfl
        · rw [List.map_cons, ih, List.length_cons, List.range'_succ]
          rfl

namespace Window

theorem trainEnd_eq (h : Window start stop cfg w) : w.trainEnd = w.testStart := by
  rw [h.eq_windowAt]
  rfl

theorem testEnd_le (h : Window start stop cfg w) : w.testEnd ≤ stop := by
  rw [h.eq_windowAt]
  exact min_le_right _ _

theorem testStart_lt_testEnd (h : Window start stop cfg w) : w.testStart < w.testEnd := by
  have hday := h.test_day
  unfold oneDay at hday
  linarith

theorem start_lt_stop (h : Window start stop cfg w) : start < stop := by
  have htest := h.testStart_lt
  rw [h.eq_windowAt] at htest
  have htrain := trainDelta_pos cfg
  have hindex : 0 ≤ (w.index : ℤ) * cfg.testDelta :=
    mul_nonneg (Int.natCast_nonneg _) ((by decide : 0 ≤ oneDay).trans (oneDay_le_testDelta cfg))
  simp only [windowAt] at htest
  linarith

theorem trainStart_lt_trainEnd (h : Window start stop cfg w) : w.trainStart < w.trainEnd := by
  have hday := h.train_day
  unfold oneDay at hday
  linarith

theorem testEnd_le_testStart {w' : WalkForwardWindow} (h : Window start stop cfg w)
    (h' : Window start stop cfg w') (hlt : w.index < w'.index) : w.testEnd ≤ w'.testStart := by
  have hindex : (w.index : ℤ) + 1 ≤ w'.index := by exact_mod_cast hlt
  have hdelta := oneDay_le_testDelta cfg
  have hnonneg : (0 : ℤ) ≤ cfg.testDelta := by
    unfold oneDay at hdelta
    linarith
  have hmul : ((w.index : ℤ) + 1) * cfg.testDelta ≤ w'.index * cfg.testDelta :=
    mul_le_mul_of_nonneg_right hindex hnonneg
  rw [h.eq_windowAt, h'.eq_windowAt]
  calc min (start + cfg.trainDelta + w.index * cfg.testDelta + cfg.testDelta) stop
      ≤ start + cfg.trainDelta + w.index * cfg.testDelta + cfg.testDelta := min_le_left _ _
    _ = start + cfg.trainDelta + ((w.index : ℤ) + 1) * cfg.testDelta := by ring
    _ ≤ start + cfg.trainDelta + w'.index * cfg.testDelta := by linarith

end Window

theorem splitWindows_ok {windows : List WalkForwardWindow}
    (h : splitWindows start stop cfg = .ok windows) :
    windows = windowsFrom start stop cfg (windowFuel start stop) 0 := by
  unfold splitWindows at h
  split at h
  · cases h
  · dsimp only at h
    split at h
    · cases h
    · exact (Except.ok.inj h).symm

end Windows

/-! ## The lock-box -/

structure LockboxConfig where
  enabled : Bool := false
  lockboxPct : Option ℚ := some (15 / 100)
  lockboxDays : Option ℤ := none

/-- `timedelta(seconds=x)` for `x` given in microseconds: halves go to the even neighbour. -/
def roundHalfEven (x : ℚ) : ℤ :=
  let lower := ⌊x⌋
  if x - lower < 1 / 2 then lower
  else if 1 / 2 < x - lower then lower + 1
  else if lower % 2 = 0 then lower else lower + 1

/-- The end of the walk-forward range and the bounds of the lock-box. -/
def computeLockboxBounds (start stop : Time) (lockbox : LockboxConfig) :
    Except String (Time × Option (Time × Time)) :=
  if !lockbox.enabled then .ok (stop, none)
  else if stop ≤ start then .error "start must be before end"
  else
    let lockboxStart := match lockbox.lockboxDays with
      | some days => stop - days * oneDay
      | none => start + roundHalfEven ((stop - start : ℤ) * (1 - lockbox.lockboxPct.getD (15 / 100)))
    if lockboxStart ≤ start then .error "lockbox segment is too large for the date range"
    else if stop ≤ lockboxStart then .error "lockbox segment is empty"
    else .ok (lockboxStart, some (lockboxStart, stop))

/-- An enabled lock-box starts where the walk-forward range ends, and is not empty. -/
theorem computeLockboxBounds_ok {start stop wfEnd : Time} {lockbox : LockboxConfig}
    {bounds : Option (Time × Time)} (h : computeLockboxBounds start stop lockbox = .ok (wfEnd, bounds)) :
    ∀ b ∈ bounds, b.1 = wfEnd ∧ b.1 < b.2 := by
  unfold computeLockboxBounds at h
  split at h
  · cases h
    simp
  · split at h
    · cases h
    · dsimp only at h
      generalize hstart : (match lockbox.lockboxDays with
        | some days => stop - days * oneDay
        | none => start + roundHalfEven ((stop - start : ℤ) * (1 - lockbox.lockboxPct.getD (15 / 100)))) =
        lockboxStart at h
      split at h
      · cases h
      · split at h
        · cases h
        next hend =>
          cases h
          simpa using not_le.mp hend

/-! ## The rows of a run -/

/-- The evaluation frame, in the order of its index. -/
structure EvaluationFrame where
  bars : List Bar
  sorted : bars.Pairwise (fun a b => a.openTime ≤ b.openTime)

/-- A row of the frame: a bar and its position. -/
abbrev Row := Bar × ℕ

def EvaluationFrame.rows (frame : EvaluationFrame) : List Row := frame.bars.zipIdx

/-- The dates of a run and the bars of warm-up that it asks for. -/
structure RunRange where
  start : Time
  stop : Time
  warmupBars : ℤ := 0

/-- `index.searchsorted(t)`. -/
def searchsorted (rows : List Row) (t : Time) : ℕ :=
  (rows.takeWhile (fun r => r.1.openTime < t)).length

/-- The rows that a run is served; `loc` includes both ends. -/
def dataProvider (frame : EvaluationFrame) (range : RunRange) : List Row :=
  if 0 < range.warmupBars then
    let lo := (searchsorted frame.rows range.start - range.warmupBars).toNat
    (frame.rows.drop lo).filter (fun r => r.1.openTime ≤ range.stop)
  else
    frame.rows.filter (fun r => range.start ≤ r.1.openTime ∧ r.1.openTime ≤ range.stop)

/-- The rows on which the engine of the run may trade. -/
def slice (frame : EvaluationFrame) (range : RunRange) : List Row :=
  let tradeStart := if 0 < range.warmupBars then some range.start else none
  (dataProvider frame range).filter (fun r => !tradeStart.any (r.1.openTime < ·))

theorem lt_of_mem_take_searchsorted {rows : List Row} {t : Time} {n : ℕ}
    (hn : n ≤ searchsorted rows t) {r : Row} (hr : r ∈ rows.take n) : r.1.openTime < t := by
  have hbefore : rows.take n <+: rows.takeWhile (fun r => r.1.openTime < t) := by
    have htake : rows.takeWhile (fun r => r.1.openTime < t) =
        rows.take (searchsorted rows t) :=
      List.prefix_iff_eq_take.mp (List.takeWhile_prefix _)
    rw [htake]
    exact List.take_prefix_take_left hn
  have hmem := List.mem_takeWhile_imp (hbefore.subset hr)
  exact of_decide_eq_true hmem

/-- Warm-up rows are served but not traded: the slice is the rows between the dates. -/
theorem mem_slice {frame : EvaluationFrame} {range : RunRange} {r : Row} :
    r ∈ slice frame range ↔
      r ∈ frame.rows ∧ range.start ≤ r.1.openTime ∧ r.1.openTime ≤ range.stop := by
  unfold slice dataProvider
  by_cases hwarm : 0 < range.warmupBars
  · simp only [if_pos hwarm, List.mem_filter, Option.any_some, decide_eq_true_eq,
      Bool.not_eq_true', decide_eq_false_iff_not, not_lt]
    constructor
    · rintro ⟨⟨hmem, hstop⟩, hstart⟩
      exact ⟨List.mem_of_mem_drop hmem, hstart, hstop⟩
    · rintro ⟨hmem, hstart, hstop⟩
      refine ⟨⟨?_, hstop⟩, hstart⟩
      rw [← List.take_append_drop
        (searchsorted frame.rows range.start - range.warmupBars).toNat frame.rows] at hmem
      refine (List.mem_append.mp hmem).resolve_left (fun htake => ?_)
      have hlt : r.1.openTime < range.start := by
        refine lt_of_mem_take_searchsorted ?_ htake
        omega
      exact absurd hstart (not_le.mpr hlt)
  · simp [hwarm]

end QBackend.Optimization
