import QBackend.WalkForward
import QBackend.FallibleSteps
import Mathlib.Data.List.Chain

/-!
# The windows tile the range

The test intervals of `split_windows` follow one another from the end of the first training up to
the last day of the range. The dates of the loop are computed before they are cut at the end of the
range, and `datetime` holds no date after the year 9999.
-/

namespace QBackend.Optimization

open Execution (Time)
open FallibleSteps

/-! ## Dates that `datetime` holds -/

inductive SplitFailure where
  | valueError (message : String)
  | overflowError
  deriving DecidableEq, Repr

/-- `datetime.min`, in microseconds from 1970. -/
def datetimeMin : Time := -62135596800000000

/-- `datetime.max`. -/
def datetimeMax : Time := 253402300799999999

def timedeltaMaxDays : ℕ := 999999999

def timedeltaDays (days : ℕ) : Except SplitFailure Time :=
  if days ≤ timedeltaMaxDays then .ok (days * oneDay) else .error .overflowError

/-- A later date. -/
def datetimeAdd (t delta : Time) : Except SplitFailure Time :=
  if t + delta ≤ datetimeMax then .ok (t + delta) else .error .overflowError

/-- The loop of `split_windows`, with the exceptions of its dates. -/
def datedWindowsFrom (start stop : Time) (cfg : WalkForwardConfig) :
    ℕ → ℕ → Except SplitFailure (List WalkForwardWindow)
  | 0, _ => .ok []
  | fuel + 1, index => do
    let w := windowAt start stop cfg index
    let trained ← datetimeAdd start cfg.trainDelta
    let offset ← timedeltaDays (index * cfg.testDays)
    let testStart ← datetimeAdd trained offset
    if stop ≤ testStart then .ok []
    else do
      -- the end of a whole test, before it is cut at the end of the range
      let _ ← datetimeAdd testStart cfg.testDelta
      if w.testEnd - w.testStart < oneDay then .ok []
      else if w.trainEnd - w.trainStart < oneDay then .ok []
      else do
        let rest ← datedWindowsFrom start stop cfg fuel (index + 1)
        .ok (w :: rest)

def tooFewWindows (windows minWindows : ℕ) : String :=
  "Date range yields " ++ toString windows ++ " walk-forward window(s), " ++
    "but min_windows is " ++ toString minWindows ++ ". " ++
    "Try a longer history or smaller train_days/test_days."

def splitDatedWindows (start stop : Time) (cfg : WalkForwardConfig) :
    Except SplitFailure (List WalkForwardWindow) :=
  if stop ≤ start then .error (.valueError "start must be before end")
  else do
    let _ ← timedeltaDays cfg.trainDays
    let _ ← timedeltaDays cfg.testDays
    let windows ← datedWindowsFrom start stop cfg (windowFuel start stop) 0
    if windows.length < cfg.minWindows then
      .error (.valueError (tooFewWindows windows.length cfg.minWindows))
    else .ok windows

section Tiling

variable {start stop : Time} {cfg : WalkForwardConfig}

/-! ## The windows by their index -/

theorem testStart_windowAt (index : ℕ) :
    (windowAt start stop cfg index).testStart = start + cfg.trainDelta + index * cfg.testDelta :=
  rfl

theorem testEnd_windowAt (index : ℕ) : (windowAt start stop cfg index).testEnd =
    min ((windowAt start stop cfg index).testStart + cfg.testDelta) stop :=
  rfl

theorem testStart_succ (index : ℕ) : (windowAt start stop cfg (index + 1)).testStart =
    (windowAt start stop cfg index).testStart + cfg.testDelta := by
  rw [testStart_windowAt, testStart_windowAt]
  push_cast
  ring

theorem oneDay_le_trainDelta (cfg : WalkForwardConfig) : oneDay ≤ cfg.trainDelta := by
  have hdays : (1 : ℤ) ≤ cfg.trainDays := by exact_mod_cast cfg.trainDays_pos
  unfold WalkForwardConfig.trainDelta oneDay
  linarith

theorem index_mul_nonneg (cfg : WalkForwardConfig) (index : ℕ) :
    (0 : ℤ) ≤ index * cfg.testDelta := by
  have hday : (0 : ℤ) ≤ cfg.testDelta := le_trans (by decide) (oneDay_le_testDelta cfg)
  exact mul_nonneg (Int.natCast_nonneg index) hday

theorem oneDay_le_train (index : ℕ) :
    oneDay ≤ (windowAt start stop cfg index).trainEnd -
      (windowAt start stop cfg index).trainStart := by
  have htrain := oneDay_le_trainDelta cfg
  have hoffset := index_mul_nonneg cfg index
  unfold windowAt
  cases cfg.mode with
  | rolling =>
    show oneDay ≤ start + cfg.trainDelta + index * cfg.testDelta -
      (start + cfg.trainDelta + index * cfg.testDelta - cfg.trainDelta)
    linarith
  | anchored =>
    show oneDay ≤ start + cfg.trainDelta + index * cfg.testDelta - start
    linarith

theorem windowsFrom_eq_map (fuel index : ℕ) :
    windowsFrom start stop cfg fuel index =
      (List.range' index (windowsFrom start stop cfg fuel index).length).map
        (windowAt start stop cfg) := by
  rw [← windowsFrom_indices, List.map_map]
  refine (List.map_id _).symm.trans (List.map_congr_left fun w hw => ?_)
  exact (window_of_mem hw).2.eq_windowAt

theorem rest_lt_oneDay (cfg : WalkForwardConfig) {fuel index : ℕ}
    (h : stop - start < (index + fuel : ℕ) * oneDay) :
    stop - (windowAt start stop cfg
      (index + (windowsFrom start stop cfg fuel index).length)).testStart < oneDay := by
  induction fuel generalizing index with
  | zero =>
    have hdelta : (index : ℤ) * oneDay ≤ index * cfg.testDelta :=
      mul_le_mul_of_nonneg_left (oneDay_le_testDelta cfg) (Int.natCast_nonneg index)
    have htrain := trainDelta_pos cfg
    have hday : (0 : ℤ) < oneDay := by decide
    show stop - (start + cfg.trainDelta + ((index + 0 : ℕ) : ℤ) * cfg.testDelta) < oneDay
    push_cast at h ⊢
    rw [add_zero] at h ⊢
    linarith
  | succ fuel ih =>
    have hday : (0 : ℤ) < oneDay := by decide
    have hdelta := oneDay_le_testDelta cfg
    simp only [windowsFrom]
    split
    next hstop =>
      rw [List.length_nil, add_zero]
      exact lt_of_le_of_lt (Int.sub_nonpos_of_le hstop) hday
    next hstop =>
      split
      next htest =>
        rw [List.length_nil, add_zero]
        rw [testEnd_windowAt] at htest
        rcases le_total ((windowAt start stop cfg index).testStart + cfg.testDelta) stop with
          hle | hle
        · rw [min_eq_left hle] at htest
          linarith
        · rwa [min_eq_right hle] at htest
      next htest =>
        rw [if_neg (not_lt.mpr (oneDay_le_train index)), List.length_cons,
          show index + ((windowsFrom start stop cfg fuel (index + 1)).length + 1) =
            index + 1 + (windowsFrom start stop cfg fuel (index + 1)).length by omega]
        refine ih ?_
        rw [show index + 1 + fuel = index + (fuel + 1) by omega]
        exact h

/-! ## The tiling -/

/-- The windows, numbered from 0, cover the range with their tests from the end of the first
training on. -/
structure Tiling (start stop : Time) (cfg : WalkForwardConfig) (windows : List WalkForwardWindow) :
    Prop where
  indices : windows.map WalkForwardWindow.index = List.range windows.length
  first : ∀ w ∈ windows.head?, w.testStart = start + cfg.trainDelta
  adjacent : windows.IsChain fun w w' => w.testEnd = w'.testStart
  full : ∀ w ∈ windows.dropLast, w.testEnd - w.testStart = cfg.testDelta
  last : ∀ w ∈ windows.getLast?, oneDay ≤ w.testEnd - w.testStart ∧ w.testEnd ≤ stop ∧
    stop - w.testEnd < oneDay
  trains : ∀ w ∈ windows, start ≤ w.trainStart ∧ w.trainStart < w.trainEnd ∧ w.trainEnd ≤ stop ∧
    w.trainEnd = w.testStart
  rolling : cfg.mode = .rolling → ∀ w ∈ windows, w.trainEnd - w.trainStart = cfg.trainDelta
  anchored : cfg.mode = .anchored → ∀ w ∈ windows, w.trainStart = start

theorem testEnd_of_next {index : ℕ}
    (h : (windowAt start stop cfg (index + 1)).testStart < stop) :
    (windowAt start stop cfg index).testEnd = (windowAt start stop cfg (index + 1)).testStart := by
  rw [testEnd_windowAt, ← testStart_succ, min_eq_left h.le]

/-- Windows of consecutive indices, each of which passed the checks, after which less than a day is
left. -/
theorem tiling_of_indices {n : ℕ}
    (hwindow : ∀ i < n, Window start stop cfg (windowAt start stop cfg i))
    (hrest : stop - (windowAt start stop cfg n).testStart < oneDay) :
    Tiling start stop cfg ((List.range n).map (windowAt start stop cfg)) where
  indices := by
    rw [List.map_map, List.length_map, List.length_range]
    exact List.map_id _
  first := by
    intro w hw
    cases n with
    | zero => cases hw
    | succ n =>
      rw [List.range_succ_eq_map, List.map_cons, List.head?_cons] at hw
      obtain rfl := Option.some.inj hw
      rw [testStart_windowAt, Nat.cast_zero, zero_mul, add_zero]
  adjacent := by
    rw [List.isChain_map, List.isChain_iff_getElem]
    intro i hi
    rw [List.length_range] at hi
    rw [List.getElem_range, List.getElem_range]
    exact testEnd_of_next (hwindow (i + 1) hi).testStart_lt
  full := by
    intro w hw
    cases n with
    | zero => cases hw
    | succ n =>
      rw [List.range_succ, List.map_append, List.map_singleton, List.dropLast_concat] at hw
      obtain ⟨i, hi, rfl⟩ := List.mem_map.mp hw
      have hlt := List.mem_range.mp hi
      rw [testEnd_of_next (hwindow (i + 1) (by omega)).testStart_lt, testStart_succ]
      ring
  last := by
    intro w hw
    cases n with
    | zero => cases hw
    | succ n =>
      rw [List.range_succ, List.map_append, List.map_singleton, List.getLast?_concat] at hw
      obtain rfl := Option.some.inj hw
      have hlast := hwindow n (Nat.lt_succ_self n)
      refine ⟨hlast.test_day, hlast.testEnd_le, ?_⟩
      rcases le_total (windowAt start stop cfg (n + 1)).testStart stop with hle | hle
      · have hend : (windowAt start stop cfg n).testEnd =
            (windowAt start stop cfg (n + 1)).testStart := by
          rw [testEnd_windowAt, ← testStart_succ, min_eq_left hle]
        rw [hend]
        exact hrest
      · have hend : (windowAt start stop cfg n).testEnd = stop := by
          rw [testEnd_windowAt, ← testStart_succ, min_eq_right hle]
        rw [hend, sub_self]
        decide
  trains := by
    intro w hw
    obtain ⟨i, hi, rfl⟩ := List.mem_map.mp hw
    have hw := hwindow i (List.mem_range.mp hi)
    refine ⟨?_, hw.trainStart_lt_trainEnd, ?_, hw.trainEnd_eq⟩
    · have hoffset := index_mul_nonneg cfg i
      unfold windowAt
      cases cfg.mode with
      | rolling =>
        show start ≤ start + cfg.trainDelta + i * cfg.testDelta - cfg.trainDelta
        linarith
      | anchored => exact le_rfl
    · rw [hw.trainEnd_eq]
      exact hw.testStart_lt.le
  rolling := by
    intro hmode w hw
    obtain ⟨i, -, rfl⟩ := List.mem_map.mp hw
    unfold windowAt
    rw [hmode]
    exact sub_sub_cancel _ _
  anchored := by
    intro hmode w hw
    obtain ⟨i, -, rfl⟩ := List.mem_map.mp hw
    unfold windowAt
    rw [hmode]

theorem tiling_windowsFrom (start stop : Time) (cfg : WalkForwardConfig) :
    Tiling start stop cfg (windowsFrom start stop cfg (windowFuel start stop) 0) := by
  have hmap := @windowsFrom_eq_map start stop cfg (windowFuel start stop) 0
  have hrest := rest_lt_oneDay cfg (windowFuel_enough start stop)
  rw [zero_add] at hrest
  rw [← List.range_eq_range'] at hmap
  rw [hmap]
  refine tiling_of_indices (fun i hi => ?_) hrest
  have hmem : windowAt start stop cfg i ∈ windowsFrom start stop cfg (windowFuel start stop) 0 := by
    rw [hmap]
    exact List.mem_map_of_mem (List.mem_range.mpr hi)
  exact (window_of_mem hmem).2

/-! ## The dates of the loop -/

theorem timedeltaDays_ok {days : ℕ} {delta : Time} (h : timedeltaDays days = .ok delta) :
    delta = days * oneDay := by
  unfold timedeltaDays at h
  split at h
  · exact (Except.ok.inj h).symm
  · cases h

theorem datetimeAdd_ok {t delta t' : Time} (h : datetimeAdd t delta = .ok t') : t' = t + delta := by
  unfold datetimeAdd at h
  split at h
  · exact (Except.ok.inj h).symm
  · cases h

theorem testStart_of_dates (stop : Time) {index : ℕ} {trained offset testStart : Time}
    (htrained : datetimeAdd start cfg.trainDelta = .ok trained)
    (hoffset : timedeltaDays (index * cfg.testDays) = .ok offset)
    (htest : datetimeAdd trained offset = .ok testStart) :
    testStart = (windowAt start stop cfg index).testStart := by
  rw [datetimeAdd_ok htest, datetimeAdd_ok htrained, timedeltaDays_ok hoffset, testStart_windowAt]
  unfold WalkForwardConfig.testDelta
  push_cast
  ring

theorem datedWindowsFrom_ok {fuel index : ℕ} {windows : List WalkForwardWindow}
    (h : datedWindowsFrom start stop cfg fuel index = .ok windows) :
    windows = windowsFrom start stop cfg fuel index := by
  induction fuel generalizing index windows with
  | zero => exact (Except.ok.inj h).symm
  | succ fuel ih =>
    simp only [datedWindowsFrom, bind_eq_ok] at h
    obtain ⟨trained, htrained, offset, hoffset, testStart, htest, h⟩ := h
    obtain rfl := testStart_of_dates stop htrained hoffset htest
    simp only [windowsFrom]
    by_cases hstop : stop ≤ (windowAt start stop cfg index).testStart
    · rw [if_pos hstop] at h ⊢
      exact (Except.ok.inj h).symm
    · rw [if_neg hstop] at h ⊢
      obtain ⟨_, -, h⟩ := bind_eq_ok.mp h
      by_cases hday : (windowAt start stop cfg index).testEnd -
          (windowAt start stop cfg index).testStart < oneDay
      · rw [if_pos hday] at h ⊢
        exact (Except.ok.inj h).symm
      · rw [if_neg hday, if_neg (not_lt.mpr (oneDay_le_train index))] at h ⊢
        obtain ⟨rest, hrest, h⟩ := bind_eq_ok.mp h
        rw [← Except.ok.inj h, ih hrest]

/-- The last date that a round may need. -/
def lastDate (stop : Time) (cfg : WalkForwardConfig) : Time := stop + cfg.trainDelta + cfg.testDelta

theorem datetimeAdd_error {t delta : Time} {e : SplitFailure} (h : datetimeAdd t delta = .error e)
    (hlast : t + delta ≤ lastDate stop cfg) :
    e = .overflowError ∧ datetimeMax < lastDate stop cfg := by
  unfold datetimeAdd at h
  split at h
  · cases h
  next hmax => exact ⟨(Except.error.inj h).symm, (not_le.mp hmax).trans_le hlast⟩

theorem timedeltaDays_error (hmin : datetimeMin ≤ start) {days : ℕ} {e : SplitFailure}
    (h : timedeltaDays days = .error e) (hlast : start + days * oneDay ≤ lastDate stop cfg) :
    e = .overflowError ∧ datetimeMax < lastDate stop cfg := by
  unfold timedeltaDays at h
  split at h
  · cases h
  next hmax =>
    refine ⟨(Except.error.inj h).symm, lt_of_lt_of_le ?_ hlast⟩
    have hdays : (1000000000 : ℤ) ≤ days := by
      have hlt := not_le.mp hmax
      unfold timedeltaMaxDays at hlt
      exact_mod_cast hlt
    unfold datetimeMin at hmin
    unfold datetimeMax oneDay
    linarith

/-- A round before which less than the range has passed raises nothing but the overflow of a date
after the range. -/
theorem datedWindowsFrom_error (hmin : datetimeMin ≤ start) (hstart : start < stop)
    {fuel index : ℕ} {e : SplitFailure}
    (hbefore : (windowAt start stop cfg index).testStart ≤ lastDate stop cfg)
    (h : datedWindowsFrom start stop cfg fuel index = .error e) :
    e = .overflowError ∧ datetimeMax < lastDate stop cfg := by
  have htrain := trainDelta_pos cfg
  have hday : (0 : ℤ) < cfg.testDelta := lt_of_lt_of_le (by decide) (oneDay_le_testDelta cfg)
  induction fuel generalizing index with
  | zero => cases h
  | succ fuel ih =>
    have hoffset0 := index_mul_nonneg cfg index
    rw [testStart_windowAt] at hbefore
    simp only [datedWindowsFrom, bind_eq_error] at h
    rcases h with htrained | ⟨trained, htrained, hoffset | ⟨offset, hoffset, htest |
      ⟨testStart, htest, h⟩⟩⟩
    · refine datetimeAdd_error htrained ?_
      unfold lastDate
      linarith
    · refine timedeltaDays_error hmin hoffset (le_trans ?_ hbefore)
      unfold WalkForwardConfig.testDelta
      push_cast
      linarith
    · refine datetimeAdd_error htest (le_trans (le_of_eq ?_) hbefore)
      rw [datetimeAdd_ok htrained, timedeltaDays_ok hoffset]
      unfold WalkForwardConfig.testDelta
      push_cast
      ring
    · obtain rfl := testStart_of_dates stop htrained hoffset htest
      by_cases hstop : stop ≤ (windowAt start stop cfg index).testStart
      · rw [if_pos hstop] at h
        cases h
      · have hnext : (windowAt start stop cfg index).testStart + cfg.testDelta ≤
            lastDate stop cfg := by
          unfold lastDate
          linarith
        rw [if_neg hstop] at h
        rcases bind_eq_error.mp h with hwhole | ⟨_, -, h⟩
        · exact datetimeAdd_error hwhole hnext
        · by_cases hday : (windowAt start stop cfg index).testEnd -
              (windowAt start stop cfg index).testStart < oneDay
          · rw [if_pos hday] at h
            cases h
          · rw [if_neg hday, if_neg (not_lt.mpr (oneDay_le_train index))] at h
            rcases bind_eq_error.mp h with hrest | ⟨rest, -, h⟩
            · exact ih (by rwa [testStart_succ]) hrest
            · cases h

theorem datedWindowsFrom_add_fuel {fuel index : ℕ} (k : ℕ)
    (h : stop - start < (index + fuel + 1 : ℕ) * oneDay) :
    datedWindowsFrom start stop cfg (fuel + 1 + k) index =
      datedWindowsFrom start stop cfg (fuel + 1) index := by
  induction fuel generalizing index with
  | zero =>
    have hdelta : (index : ℤ) * oneDay ≤ index * cfg.testDelta :=
      mul_le_mul_of_nonneg_left (oneDay_le_testDelta cfg) (Int.natCast_nonneg index)
    have htrain := oneDay_le_trainDelta cfg
    have hstop : stop ≤ (windowAt start stop cfg index).testStart := by
      rw [testStart_windowAt]
      push_cast at h
      linarith
    rw [show 0 + 1 + k = k + 1 by omega]
    simp only [datedWindowsFrom]
    refine bind_congr_ok fun trained htrained => bind_congr_ok fun offset hoffset =>
      bind_congr_ok fun testStart htest => ?_
    obtain rfl := testStart_of_dates stop htrained hoffset htest
    rw [if_pos hstop, if_pos hstop]
  | succ fuel ih =>
    have hnext : stop - start < (index + 1 + fuel + 1 : ℕ) * oneDay := by
      rwa [show index + 1 + fuel + 1 = index + (fuel + 1) + 1 by omega]
    rw [show fuel + 1 + 1 + k = fuel + 1 + k + 1 by omega]
    rw [datedWindowsFrom, datedWindowsFrom, ih hnext]

/-! ## Every range and every configuration -/

theorem splitDatedWindows_cases (hmin : datetimeMin ≤ start) (hstart : start < stop)
    (hwindows : 1 ≤ cfg.minWindows) :
    (∃ windows, datedWindowsFrom start stop cfg (windowFuel start stop) 0 = .ok windows ∧
        windows.length < cfg.minWindows ∧ splitDatedWindows start stop cfg =
          .error (.valueError (tooFewWindows windows.length cfg.minWindows))) ∨
      (datetimeMax < lastDate stop cfg ∧ splitDatedWindows start stop cfg = .error .overflowError) ∨
      ∃ windows, windows ≠ [] ∧ splitDatedWindows start stop cfg = .ok windows ∧
        Tiling start stop cfg windows := by
  have hdays : (0 : ℤ) < oneDay := by decide
  have hoverflow : ∀ days : ℕ, ∀ e, timedeltaDays days = .error e →
      days * oneDay ≤ cfg.trainDelta + cfg.testDelta →
      e = .overflowError ∧ datetimeMax < lastDate stop cfg := by
    intro days e he hle
    refine timedeltaDays_error hmin he ?_
    unfold lastDate
    linarith
  have htrain0 : 0 < cfg.trainDelta := trainDelta_pos cfg
  have htest0 : (0 : ℤ) < cfg.testDelta := lt_of_lt_of_le hdays (oneDay_le_testDelta cfg)
  unfold splitDatedWindows
  rw [if_neg (not_le.mpr hstart)]
  cases htrain : timedeltaDays cfg.trainDays with
  | error e =>
    obtain ⟨rfl, hmax⟩ := hoverflow _ _ htrain (by
      show cfg.trainDelta ≤ cfg.trainDelta + cfg.testDelta
      linarith)
    exact .inr (.inl ⟨hmax, rfl⟩)
  | ok _ =>
    cases htest : timedeltaDays cfg.testDays with
    | error e =>
      obtain ⟨rfl, hmax⟩ := hoverflow _ _ htest (by
        show cfg.testDelta ≤ cfg.trainDelta + cfg.testDelta
        linarith)
      exact .inr (.inl ⟨hmax, rfl⟩)
    | ok _ =>
      cases hloop : datedWindowsFrom start stop cfg (windowFuel start stop) 0 with
      | error e =>
        obtain ⟨rfl, hmax⟩ := datedWindowsFrom_error hmin hstart (by
          rw [testStart_windowAt, Nat.cast_zero, zero_mul, add_zero]
          unfold lastDate
          linarith) hloop
        exact .inr (.inl ⟨hmax, rfl⟩)
      | ok windows =>
        by_cases hfew : windows.length < cfg.minWindows
        · exact .inl ⟨windows, rfl, hfew, bind_of_ok rfl (bind_of_ok rfl (bind_of_ok rfl
            (if_pos hfew)))⟩
        · refine .inr (.inr ⟨windows, ?_, bind_of_ok rfl (bind_of_ok rfl (bind_of_ok rfl
            (if_neg hfew))), ?_⟩)
          · rintro rfl
            exact hfew hwindows
          · rw [datedWindowsFrom_ok hloop]
            exact tiling_windowsFrom start stop cfg

/-- The loop ends, and the windows tile the range where no date overflows and there are enough. -/
theorem split_windows_tile (start stop : Time) (cfg : WalkForwardConfig)
    (hmin : datetimeMin ≤ start) (hstart : start < stop) (hwindows : 1 ≤ cfg.minWindows) :
    (∀ k, datedWindowsFrom start stop cfg (windowFuel start stop + k) 0 =
        datedWindowsFrom start stop cfg (windowFuel start stop) 0) ∧
      ((∃ windows, datedWindowsFrom start stop cfg (windowFuel start stop) 0 = .ok windows ∧
          windows.length < cfg.minWindows ∧ splitDatedWindows start stop cfg =
            .error (.valueError (tooFewWindows windows.length cfg.minWindows))) ∨
        (datetimeMax < lastDate stop cfg ∧
          splitDatedWindows start stop cfg = .error .overflowError) ∨
        ∃ windows, windows ≠ [] ∧ splitDatedWindows start stop cfg = .ok windows ∧
          Tiling start stop cfg windows) := by
  refine ⟨fun k => ?_, splitDatedWindows_cases hmin hstart hwindows⟩
  obtain ⟨fuel, hfuel⟩ : ∃ fuel, windowFuel start stop = fuel + 1 := ⟨_, rfl⟩
  have henough := windowFuel_enough start stop
  rw [hfuel] at henough ⊢
  exact datedWindowsFrom_add_fuel k (by rwa [← add_assoc] at henough)

end Tiling

/-! ## A test that is longer than the range -/

/-- 100 days of training and one test of any length. -/
def singleTestConfig (testDays : ℕ) (h : 1 ≤ testDays) : WalkForwardConfig where
  trainDays := 100
  testDays := testDays
  minWindows := 1
  trainDays_pos := by decide
  testDays_pos := h

/-- The year 2020. -/
def yearStart : Time := 1577836800000000

def yearEnd : Time := 1609459200000000

theorem split_windows_tile_year :
    datetimeMin ≤ yearStart ∧ yearStart < yearEnd ∧
      ((∃ windows, datedWindowsFrom yearStart yearEnd (singleTestConfig 30 (by decide))
            (windowFuel yearStart yearEnd) 0 = .ok windows ∧ windows.length < 1 ∧
          splitDatedWindows yearStart yearEnd (singleTestConfig 30 (by decide)) =
            .error (.valueError (tooFewWindows windows.length 1))) ∨
        (datetimeMax < lastDate yearEnd (singleTestConfig 30 (by decide)) ∧
          splitDatedWindows yearStart yearEnd (singleTestConfig 30 (by decide)) =
            .error .overflowError) ∨
        ∃ windows, windows ≠ [] ∧
          splitDatedWindows yearStart yearEnd (singleTestConfig 30 (by decide)) = .ok windows ∧
          Tiling yearStart yearEnd (singleTestConfig 30 (by decide)) windows) :=
  ⟨by decide, by decide, (split_windows_tile yearStart yearEnd (singleTestConfig 30 (by decide))
    (by decide) (by decide) (by decide)).2⟩

/-- One window fits, with its test cut at the end of the year, but the date at which the test would
end without the cut is after the year 9999. -/
theorem long_test_overflows :
    (windowsFrom yearStart yearEnd (singleTestConfig 3000000 (by decide))
        (windowFuel yearStart yearEnd) 0).length = 1 ∧
      splitDatedWindows yearStart yearEnd (singleTestConfig 3000000 (by decide)) =
        .error .overflowError := by
  decide +kernel

end QBackend.Optimization
