import QBackend.FallibleSteps
import QBackend.WalkForward

/-!
# Which bars the slices of a walk-forward share

Consecutive windows and the lock-box meet at a date, and each slice includes the bars at both of its
dates, so the bars on a shared date are the only ones that two slices have in common.
-/

namespace QBackend.Optimization

open Execution (Time Bar)

/-- The optimization of a window. -/
def WalkForwardWindow.trainRange (w : WalkForwardWindow) : RunRange :=
  { start := w.trainStart, stop := w.trainEnd }

/-- Its test, with the warm-up that the best parameters ask for. -/
def WalkForwardWindow.testRange (w : WalkForwardWindow) (warmupBars : ℤ) : RunRange :=
  { start := w.testStart, stop := w.testEnd, warmupBars }

/-- No bar is trained and tested on by one window, tested on by two, or used by a window and by the
lock-box. -/
structure DisjointSlices (frame : EvaluationFrame) (windows : List WalkForwardWindow)
    (warmupBars : ℕ → ℤ) (lockbox : Option (Time × Time)) : Prop where
  trainTest : ∀ w ∈ windows, ∀ r ∈ slice frame w.trainRange,
    r ∉ slice frame (w.testRange (warmupBars w.index))
  tests : windows.Pairwise (fun w w' => ∀ r ∈ slice frame (w.testRange (warmupBars w.index)),
    r ∉ slice frame (w'.testRange (warmupBars w'.index)))
  lockbox : ∀ b ∈ lockbox, ∀ w ∈ windows, ∀ r ∈ slice frame { start := b.1, stop := b.2 },
    r ∉ slice frame w.trainRange ∧ r ∉ slice frame (w.testRange (warmupBars w.index))

/-- The dates that two slices share: the start of each test, and the start of the lock-box when a
test ends there. -/
def sharedDates (windows : List WalkForwardWindow) (lockbox : Option (Time × Time)) : List Time :=
  windows.map WalkForwardWindow.testStart ++
    (lockbox.toList.map Prod.fst).filter (fun t => t ∈ windows.map WalkForwardWindow.testEnd)

section Slices

variable {frame : EvaluationFrame} {start stop : Time} {cfg : WalkForwardConfig}
  {windows : List WalkForwardWindow} {warmupBars : ℕ → ℤ} {lockbox : Option (Time × Time)}
  {w w' : WalkForwardWindow} {r : Row}

theorem openTime_of_train_test (hw : Window start stop cfg w) {n : ℤ}
    (htrain : r ∈ slice frame w.trainRange) (htest : r ∈ slice frame (w.testRange n)) :
    r.1.openTime = w.testStart := by
  obtain ⟨-, -, hle⟩ := mem_slice.mp htrain
  obtain ⟨-, hge, -⟩ := mem_slice.mp htest
  have hmeet := hw.trainEnd_eq
  simp only [WalkForwardWindow.trainRange, WalkForwardWindow.testRange] at hle hge
  linarith

theorem openTime_of_tests (hw : Window start stop cfg w) (hw' : Window start stop cfg w')
    (hlt : w.index < w'.index) {n n' : ℤ} (htest : r ∈ slice frame (w.testRange n))
    (htest' : r ∈ slice frame (w'.testRange n')) : r.1.openTime = w'.testStart := by
  obtain ⟨-, -, hle⟩ := mem_slice.mp htest
  obtain ⟨-, hge, -⟩ := mem_slice.mp htest'
  have hmeet := hw.testEnd_le_testStart hw' hlt
  simp only [WalkForwardWindow.testRange] at hle hge
  linarith

theorem not_mem_train_of_lockbox (hw : Window start stop cfg w) {t : Time}
    (hlockbox : r ∈ slice frame { start := stop, stop := t }) : r ∉ slice frame w.trainRange := by
  intro htrain
  obtain ⟨-, -, hle⟩ := mem_slice.mp htrain
  obtain ⟨-, hge, -⟩ := mem_slice.mp hlockbox
  have hmeet := hw.trainEnd_eq
  have hlt := hw.testStart_lt
  simp only [WalkForwardWindow.trainRange] at hle hge
  linarith

theorem openTime_of_test_lockbox (hw : Window start stop cfg w) {n : ℤ} {t : Time}
    (hlockbox : r ∈ slice frame { start := stop, stop := t }) (htest : r ∈ slice frame (w.testRange n)) :
    r.1.openTime = stop ∧ w.testEnd = stop := by
  obtain ⟨-, -, hle⟩ := mem_slice.mp htest
  obtain ⟨-, hge, -⟩ := mem_slice.mp hlockbox
  have hend := hw.testEnd_le
  simp only [WalkForwardWindow.testRange] at hle hge
  constructor <;> linarith

theorem mem_both_of_testStart (hw : Window start stop cfg w) (hr : r ∈ frame.rows)
    (htime : r.1.openTime = w.testStart) (n : ℤ) :
    r ∈ slice frame w.trainRange ∧ r ∈ slice frame (w.testRange n) := by
  have htrain := hw.trainStart_lt_trainEnd
  have hmeet := hw.trainEnd_eq
  have htest := hw.testStart_lt_testEnd
  refine ⟨mem_slice.mpr ⟨hr, ?_, ?_⟩, mem_slice.mpr ⟨hr, ?_, ?_⟩⟩ <;>
    simp only [WalkForwardWindow.trainRange, WalkForwardWindow.testRange] <;> linarith

theorem disjointSlices_of_forall (hw : ∀ w ∈ windows, Window start stop cfg w)
    (hindex : windows.Pairwise (fun w w' => w.index < w'.index))
    (hlockbox : ∀ b ∈ lockbox, b.1 = stop ∧ b.1 < b.2)
    (h : ∀ bar ∈ frame.bars, bar.openTime ∉ sharedDates windows lockbox) :
    DisjointSlices frame windows warmupBars lockbox := by
  have hoff : ∀ r ∈ frame.rows, ∀ w ∈ windows, r.1.openTime ≠ w.testStart := by
    intro r hr w hmem htime
    refine h r.1 (List.fst_mem_of_mem_zipIdx hr) (List.mem_append_left _ ?_)
    exact List.mem_map.mpr ⟨w, hmem, htime.symm⟩
  refine ⟨fun w hmem r htrain htest => ?_, ?_, fun b hb w hmem r hbox => ⟨?_, fun htest => ?_⟩⟩
  · exact hoff r (mem_slice.mp htrain).1 w hmem (openTime_of_train_test (hw w hmem) htrain htest)
  · refine hindex.imp_of_mem (fun {w w'} hmem hmem' hlt r htest htest' => ?_)
    exact hoff r (mem_slice.mp htest).1 w' hmem'
      (openTime_of_tests (hw w hmem) (hw w' hmem') hlt htest htest')
  all_goals
    obtain ⟨hstop, -⟩ := hlockbox b hb
    rw [hstop] at hbox
  · exact not_mem_train_of_lockbox (hw w hmem) hbox
  · obtain ⟨htime, hend⟩ := openTime_of_test_lockbox (hw w hmem) hbox htest
    refine h r.1 (List.fst_mem_of_mem_zipIdx (mem_slice.mp htest).1) (List.mem_append_right _ ?_)
    refine List.mem_filter.mpr ⟨List.mem_map.mpr ⟨b, Option.mem_toList.mpr hb, ?_⟩, ?_⟩
    · rw [htime, hstop]
    · rw [htime]
      exact decide_eq_true (List.mem_map.mpr ⟨w, hmem, hend⟩)

theorem not_disjointSlices_of_shared (hw : ∀ w ∈ windows, Window start stop cfg w)
    (hlockbox : ∀ b ∈ lockbox, b.1 = stop ∧ b.1 < b.2) {bar : Bar} (hbar : bar ∈ frame.bars)
    (hshared : bar.openTime ∈ sharedDates windows lockbox) :
    ¬ DisjointSlices frame windows warmupBars lockbox := by
  intro h
  obtain ⟨i, hi⟩ : ∃ i, (bar, i) ∈ frame.rows := by
    obtain ⟨i, hlt, hget⟩ := List.getElem_of_mem hbar
    exact ⟨i, List.mem_zipIdx_iff_getElem?.mpr (by rw [List.getElem?_eq_getElem hlt, hget])⟩
  rcases List.mem_append.mp hshared with hstart | hend
  · obtain ⟨w, hmem, htime⟩ := List.mem_map.mp hstart
    obtain ⟨htrain, htest⟩ := mem_both_of_testStart (hw w hmem) hi htime.symm (warmupBars w.index)
    exact h.trainTest w hmem _ htrain htest
  · obtain ⟨hfirst, hlast⟩ := List.mem_filter.mp hend
    obtain ⟨b, hb, htime⟩ := List.mem_map.mp hfirst
    obtain ⟨w, hmem, hwend⟩ := List.mem_map.mp (of_decide_eq_true hlast)
    have hb := Option.mem_toList.mp hb
    have hbox : (bar, i) ∈ slice frame { start := b.1, stop := b.2 } :=
      mem_slice.mpr ⟨hi, htime.le, htime ▸ (hlockbox b hb).2.le⟩
    refine (h.lockbox b hb w hmem _ hbox).2 (mem_slice.mpr ⟨hi, ?_, hwend.ge⟩)
    have htest := (hw w hmem).testStart_lt_testEnd
    simp only [WalkForwardWindow.testRange]
    linarith

end Slices

/-- The slices of a walk-forward are disjoint exactly when no bar lies on a date that two of them
share. -/
theorem slices_disjoint_iff (frame : EvaluationFrame) (start stop wfEnd : Time) (cfg : WalkForwardConfig)
    (lockbox : LockboxConfig) (bounds : Option (Time × Time)) (windows : List WalkForwardWindow)
    (warmupBars : ℕ → ℤ) (hbounds : computeLockboxBounds start stop lockbox = .ok (wfEnd, bounds))
    (hwindows : splitWindows start wfEnd cfg = .ok windows) :
    DisjointSlices frame windows warmupBars bounds ↔
      ∀ bar ∈ frame.bars, bar.openTime ∉ sharedDates windows bounds := by
  have hsplit := splitWindows_ok hwindows
  have hw : ∀ w ∈ windows, Window start wfEnd cfg w := by
    intro w hmem
    rw [hsplit] at hmem
    exact (window_of_mem hmem).2
  have hindex : windows.Pairwise (fun w w' => w.index < w'.index) := by
    rw [hsplit]
    exact pairwise_windowsFrom _ _
  constructor
  · intro h bar hbar hshared
    exact not_disjointSlices_of_shared hw (computeLockboxBounds_ok hbounds) hbar hshared h
  · exact disjointSlices_of_forall hw hindex (computeLockboxBounds_ok hbounds)

/-! ## Daily bars -/

/-- Six daily bars, each at the given time of its day. -/
def dailyBars (timeOfDay : Time) : List Bar :=
  (List.range 6).map (fun d =>
    { openTime := d * oneDay + timeOfDay, open_ := 100, high := 101, low := 99, close := 100 })

def midnightFrame : EvaluationFrame := ⟨dailyBars 0, by decide⟩

def noonFrame : EvaluationFrame := ⟨dailyBars 43200000000, by decide⟩

/-- Two days of training and one of testing, before a lock-box of one day. -/
def dailyConfig : WalkForwardConfig :=
  { trainDays := 2, testDays := 1, trainDays_pos := Nat.two_pos, testDays_pos := Nat.one_pos }

def dailyLockbox : LockboxConfig := { enabled := true, lockboxPct := none, lockboxDays := some 1 }

def dailyWindows : List WalkForwardWindow :=
  [⟨0, 0, 2 * oneDay, 2 * oneDay, 3 * oneDay⟩, ⟨1, oneDay, 3 * oneDay, 3 * oneDay, 4 * oneDay⟩]

theorem dailyBounds : computeLockboxBounds 0 (5 * oneDay) dailyLockbox =
    .ok (4 * oneDay, some (4 * oneDay, 5 * oneDay)) := rfl

theorem dailyWindows_eq : splitWindows 0 (4 * oneDay) dailyConfig = .ok dailyWindows :=
  FallibleSteps.eq_ok_of_toOption (by decide +kernel)

/-- With bars at midnight each boundary has a bar: the first window trains and tests on the third,
both windows test on the fourth, and the fifth is tested on and in the lock-box. -/
theorem boundary_bars_are_shared :
    computeLockboxBounds 0 (5 * oneDay) dailyLockbox =
      .ok (4 * oneDay, some (4 * oneDay, 5 * oneDay)) ∧
    splitWindows 0 (4 * oneDay) dailyConfig = .ok dailyWindows ∧
    ¬ DisjointSlices midnightFrame dailyWindows (fun _ => 0) (some (4 * oneDay, 5 * oneDay)) ∧
    (∀ w ∈ dailyWindows, (slice midnightFrame w.trainRange ∩
      slice midnightFrame (w.testRange 0)).map (fun r => r.1.openTime) = [w.testStart]) := by
  refine ⟨dailyBounds, dailyWindows_eq, fun h => ?_, by decide +kernel⟩
  refine h.trainTest ⟨0, 0, 2 * oneDay, 2 * oneDay, 3 * oneDay⟩ (by decide)
    (⟨2 * oneDay, 100, 101, 99, 100, 0⟩, 2) (by decide +kernel) (by decide +kernel)

/-- With bars at noon no bar lies on a boundary. -/
theorem slices_disjoint_iff_noon :
    (∀ w ∈ dailyWindows, (slice noonFrame (w.testRange 3)).length = 1) ∧
    DisjointSlices noonFrame dailyWindows (fun _ => 3) (some (4 * oneDay, 5 * oneDay)) := by
  refine ⟨by decide +kernel, ?_⟩
  exact (slices_disjoint_iff noonFrame 0 (5 * oneDay) (4 * oneDay) dailyConfig dailyLockbox _
    dailyWindows (fun _ => 3) dailyBounds dailyWindows_eq).mpr (by decide +kernel)

end QBackend.Optimization
