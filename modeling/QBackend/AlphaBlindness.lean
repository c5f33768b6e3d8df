import QBackend.AlphaResearch

/-!
# What alpha research reads of its lock-box

The segments of the manifest are cut by counting bars, whose times it labels as UTC. The seeds are
optimized on the windows of the whole range in local time, and the champion is evaluated on the last
fraction of it. So a job is blind to the lock-box segment of its manifest just when the windows end
before it, and its lock-box metrics are those of the segment just when the bars between the dates of
the lock-box run are those of the segment.
-/

namespace QBackend.Research

open Execution (Time Bar)
open JsonValues FallibleSteps Optimization OrderedSeries

namespace AlphaConfig

/-- Another history that agrees before the lock-box segment shows the same seed runs, plateaus, ratios
and champion, and the metrics of the lock-box are those of the bars of the segment. -/
structure LockboxBlind (config : AlphaConfig) (zone : Time → Time) (history : History) : Prop where
  outcome_eq : ∀ (compute : Computations) (history' : History),
    history'.before config.manifest.lockbox.start = history.before config.manifest.lockbox.start →
      config.outcome compute history' zone = config.outcome compute history zone
  lockboxMetrics_eq : ∀ compute candidate params, ∃ range,
    config.lockboxMetrics compute history zone candidate params =
      runOn compute candidate params range (sliceSegment history config.manifest.lockbox)

/-- The windows of the whole range end before the lock-box segment, and the bars in the last fraction of
the elapsed time, in local time, are those of the segment. -/
structure StaysClear (config : AlphaConfig) (zone : Time → Time) (history : History) : Prop where
  testEnd_lt : ∀ windows, splitWindows (zone config.manifest.rangeStart)
    (zone config.manifest.rangeStop) config.walkforward = .ok windows →
      ∀ w ∈ windows, w.testEnd < config.manifest.lockbox.start
  same_bars : ∃ t, computeLockboxBounds (zone config.manifest.rangeStart)
      (zone config.manifest.rangeStop) config.lockbox =
        .ok (t, some (t, zone config.manifest.rangeStop)) ∧
    ∀ bar ∈ history.bars, (t ≤ bar.openTime ∧ bar.openTime ≤ zone config.manifest.rangeStop) ↔
      (config.manifest.lockbox.start ≤ bar.openTime ∧
        bar.openTime ≤ config.manifest.lockbox.stop)

theorem backtestRange_ok {config : AlphaConfig} {zone : Time → Time} {range : Time × Time}
    (h : config.backtestRange zone = .ok range) :
    range = (zone config.manifest.rangeStart, zone config.manifest.rangeStop) := by
  unfold backtestRange at h
  split at h
  · cases h
  · exact (Except.ok.inj h).symm

theorem backtestRange_of_lt {config : AlphaConfig} {zone : Time → Time}
    (h : zone config.manifest.rangeStart < zone config.manifest.rangeStop) :
    config.backtestRange zone =
      .ok (zone config.manifest.rangeStart, zone config.manifest.rangeStop) :=
  if_neg (not_le.mpr h)

/-! ## Histories that agree before a date -/

section Agreement

variable {config : AlphaConfig} {compute : Computations} {zone : Time → Time}
  {history history' : History} {t : Time}

theorem getOhlcv_before {start stop : Time} (hstop : stop < t) :
    history.getOhlcv start stop =
      (history.before t).bars.filter fun bar => start ≤ bar.openTime ∧ bar.openTime ≤ stop := by
  have hsplit : history.bars = (history.before t).bars ++
      history.bars.dropWhile fun bar => bar.openTime < t := List.takeWhile_append_dropWhile.symm
  have hrest : (history.bars.dropWhile fun bar => bar.openTime < t).filter
      (fun bar => start ≤ bar.openTime ∧ bar.openTime ≤ stop) = [] := by
    rw [List.filter_eq_nil_iff]
    intro bar hbar
    have hle := le_of_mem_dropWhile_lt history.sorted hbar
    simp only [decide_eq_true_eq, not_and, not_le]
    intro _
    exact hstop.trans_le hle
  rw [History.getOhlcv, hsplit, List.filter_append, hrest, List.append_nil]

theorem getOhlcv_congr (hagree : history'.before t = history.before t) {start stop : Time}
    (hstop : stop < t) : history'.getOhlcv start stop = history.getOhlcv start stop := by
  rw [getOhlcv_before hstop, getOhlcv_before hstop, hagree]

theorem seedRun_congr (hagree : history'.before t = history.before t)
    {range : Time × Time} (hwindows : ∀ windows, splitWindows range.1 range.2
      config.walkforward = .ok windows → ∀ w ∈ windows, w.testEnd < t) :
    config.seedRun compute history' range = config.seedRun compute history range := by
  funext candidate seed
  rw [seedRun, seedRun]
  cases hsplit : splitWindows range.1 range.2 config.walkforward with
  | error text => rfl
  | ok windows =>
    have hbars : windows.map (windowBars history') = windows.map (windowBars history) := by
      apply List.map_congr_left
      intro w hmem
      have hw : Window range.1 range.2 config.walkforward w := by
        rw [splitWindows_ok hsplit] at hmem
        exact (window_of_mem hmem).2
      have htest := hwindows windows hsplit w hmem
      have htrain : w.trainEnd < t := by
        have := hw.testStart_lt_testEnd
        have := hw.trainEnd_eq
        linarith
      rw [windowBars, windowBars, getOhlcv_congr hagree htrain, getOhlcv_congr hagree htest]
    simp only [hbars]

theorem neighbor_congr (hagree : history'.before t = history.before t) {segment : SplitSegment}
    (hstop : segment.stop < t) (candidate : SearchCandidate) :
    evaluateNeighborOnSegment compute history' candidate segment =
      evaluateNeighborOnSegment compute history candidate segment := by
  funext params
  simp only [evaluateNeighborOnSegment, run, getOhlcv_congr hagree hstop]

/-- The job reads the evidence segment, the windows and the walk-forward segment. -/
theorem outcome_congr (hagree : history'.before config.manifest.lockbox.start =
      history.before config.manifest.lockbox.start)
    (hwindows : ∀ windows, splitWindows (zone config.manifest.rangeStart)
      (zone config.manifest.rangeStop) config.walkforward = .ok windows →
        ∀ w ∈ windows, w.testEnd < config.manifest.lockbox.start) :
    config.outcome compute history' zone = config.outcome compute history zone := by
  cases hrange : config.backtestRange zone with
  | error failure =>
    simp only [outcome, hrange]
    rfl
  | ok range =>
    obtain rfl := backtestRange_ok hrange
    have hwalkforward := config.manifest.walkforward_lt_lockbox
    have hevidence : config.manifest.evidence.stop < config.manifest.lockbox.start := by
      have := config.manifest.evidence_lt_walkforward
      have := config.manifest.walkforward_start_le
      linarith
    have hslice : sliceSegment history' config.manifest.evidence =
        sliceSegment history config.manifest.evidence := getOhlcv_congr hagree hevidence
    have hneighbor : ∀ candidate,
        evaluateNeighborOnSegment compute history' candidate config.manifest.walkforward =
          evaluateNeighborOnSegment compute history candidate config.manifest.walkforward :=
      neighbor_congr hagree hwalkforward
    have hseed : config.seedRun compute history'
          (zone config.manifest.rangeStart, zone config.manifest.rangeStop) =
        config.seedRun compute history
          (zone config.manifest.rangeStart, zone config.manifest.rangeStop) :=
      seedRun_congr hagree hwindows
    simp only [outcome, hrange, ok_bind, runResearchAcceptance, evaluateParameterPlateau, hslice,
      hneighbor, hseed]

end Agreement

/-! ## The bars of the lock-box -/

section Lockbox

variable {config : AlphaConfig} {zone : Time → Time} {history : History}

theorem lockboxBounds_cases (config : AlphaConfig) (start stop : Time) :
    (∃ text ∈ ["start must be before end", "lockbox segment is too large for the date range",
        "lockbox segment is empty"],
      computeLockboxBounds start stop config.lockbox = .error text) ∨
    ∃ t, computeLockboxBounds start stop config.lockbox = .ok (t, some (t, stop)) ∧
      start < stop := by
  unfold computeLockboxBounds
  rw [if_neg (by simp [lockbox])]
  split
  · exact .inl ⟨_, by simp, rfl⟩
  next hlt =>
    have hdays : config.lockbox.lockboxDays = none := rfl
    simp only [hdays]
    split
    · exact .inl ⟨_, by simp, rfl⟩
    · split
      · exact .inl ⟨_, by simp, rfl⟩
      · exact .inr ⟨_, rfl, not_le.mp hlt⟩

theorem lockboxMetrics_of_bounds {t : Time}
    (hrange : config.backtestRange zone =
      .ok (zone config.manifest.rangeStart, zone config.manifest.rangeStop))
    (hbounds : computeLockboxBounds (zone config.manifest.rangeStart)
      (zone config.manifest.rangeStop) config.lockbox =
        .ok (t, some (t, zone config.manifest.rangeStop)))
    (compute : Computations) (candidate : SearchCandidate) (params : Dict ℚ) :
    config.lockboxMetrics compute history zone candidate params =
      runOn compute candidate params (t, zone config.manifest.rangeStop)
        (history.getOhlcv t (zone config.manifest.rangeStop)) := by
  simp only [lockboxMetrics, hrange, ok_bind, hbounds, run]

theorem getOhlcv_eq_iff {start stop start' stop' : Time} :
    history.getOhlcv start stop = history.getOhlcv start' stop' ↔
      ∀ bar ∈ history.bars, (start ≤ bar.openTime ∧ bar.openTime ≤ stop) ↔
        (start' ≤ bar.openTime ∧ bar.openTime ≤ stop') := by
  constructor
  · intro h bar hbar
    have hiff : bar ∈ history.getOhlcv start stop ↔ bar ∈ history.getOhlcv start' stop' := by rw [h]
    simpa only [History.getOhlcv, List.mem_filter, hbar, true_and, decide_eq_true_eq] using hiff
  · intro h
    exact List.filter_congr fun bar hbar => decide_eq_decide.mpr (h bar hbar)

theorem same_bars_of_metrics (h : ∀ compute candidate params, ∃ range,
      config.lockboxMetrics compute history zone candidate params =
        runOn compute candidate params range (sliceSegment history config.manifest.lockbox)) :
    ∃ t, computeLockboxBounds (zone config.manifest.rangeStart) (zone config.manifest.rangeStop)
        config.lockbox = .ok (t, some (t, zone config.manifest.rangeStop)) ∧
      ∀ bar ∈ history.bars, (t ≤ bar.openTime ∧ bar.openTime ≤ zone config.manifest.rangeStop) ↔
        (config.manifest.lockbox.start ≤ bar.openTime ∧
          bar.openTime ≤ config.manifest.lockbox.stop) := by
  let compute : Computations := {
    hypotheses := fun _ => []
    walkForward := fun _ _ _ => .error ""
    generateParameterNeighbors := fun _ _ => []
    backtest := fun _ _ _ bars =>
      if bars = sliceSegment history config.manifest.lockbox then .ok [] else .error .typeError
    deflatedSharpeRatio := fun sharpe _ => sharpe }
  obtain ⟨range, hmetrics⟩ := h compute ⟨"", "", []⟩ []
  -- The refusal of the dates is no result of a back-test.
  have hrefused : ∀ text ∈ ["backtest.start must be before backtest.end", "start must be before end",
      "lockbox segment is too large for the date range", "lockbox segment is empty"],
      config.lockboxMetrics compute history zone ⟨"", "", []⟩ [] ≠ .error (.valueError text) := by
    intro text htext herror
    rw [herror] at hmetrics
    simp only [runOn, compute, if_true] at hmetrics
    split at hmetrics
    · simp only [Except.error.injEq, Failure.valueError.injEq] at hmetrics
      subst hmetrics
      simp at htext
    · cases hmetrics
  by_cases hlt : zone config.manifest.rangeStart < zone config.manifest.rangeStop
  · have hrange := backtestRange_of_lt hlt
    obtain ⟨text, htext, herror⟩ | ⟨t, hbounds, -⟩ := lockboxBounds_cases config
      (zone config.manifest.rangeStart) (zone config.manifest.rangeStop)
    · refine absurd ?_ (hrefused text (List.mem_cons_of_mem _ htext))
      simp only [lockboxMetrics, hrange, ok_bind, herror]
    · refine ⟨t, hbounds, ?_⟩
      rw [← getOhlcv_eq_iff]
      rw [lockboxMetrics_of_bounds hrange hbounds] at hmetrics
      simp only [runOn, compute, if_true] at hmetrics
      by_contra hne
      have hslice : history.getOhlcv t (zone config.manifest.rangeStop) ≠
          sliceSegment history config.manifest.lockbox := hne
      rw [if_neg hslice] at hmetrics
      split at hmetrics
      next hserved =>
        split at hmetrics
        next hempty => exact hslice (hserved.trans hempty.symm)
        · cases hmetrics
      · split at hmetrics
        · cases hmetrics
        · cases hmetrics
  · refine absurd ?_ (hrefused _ List.mem_cons_self)
    rw [lockboxMetrics, backtestRange, if_pos (not_lt.mp hlt)]
    rfl

end Lockbox

/-! ## A window that reaches the lock-box -/

section Reach

variable {config : AlphaConfig} {zone : Time → Time} {history : History} {t : Time}

/-- The history up to a date. -/
def upTo (history : History) (t : Time) : History where
  toEvaluationFrame := history.before t
  increasing := history.increasing.sublist (List.takeWhile_sublist _)

theorem openTime_lt_of_mem_upTo {bar : Bar} (h : bar ∈ (upTo history t).bars) :
    bar.openTime < t :=
  of_decide_eq_true (List.mem_takeWhile_imp (p := fun bar : Bar => bar.openTime < t) h)

/-- The history up to a date and one bar from the date on. -/
def extended (history : History) (t : Time) (bar : Bar) (h : t ≤ bar.openTime) : History where
  bars := (upTo history t).bars ++ [bar]
  sorted := by
    rw [List.pairwise_append]
    refine ⟨(upTo history t).sorted, List.pairwise_singleton _ _, ?_⟩
    intro a ha b hb
    rw [List.mem_singleton.mp hb]
    exact (openTime_lt_of_mem_upTo ha).le.trans h
  increasing := by
    rw [List.pairwise_append]
    refine ⟨(upTo history t).increasing, List.pairwise_singleton _ _, ?_⟩
    intro a ha b hb
    rw [List.mem_singleton.mp hb]
    exact (openTime_lt_of_mem_upTo ha).trans_le h

theorem takeWhile_upTo : (upTo history t).bars.takeWhile (fun bar => bar.openTime < t) =
    (upTo history t).bars := by
  rw [List.takeWhile_eq_self_iff]
  intro bar hbar
  exact decide_eq_true (openTime_lt_of_mem_upTo hbar)

theorem before_upTo : (upTo history t).before t = history.before t := by
  simp only [EvaluationFrame.before, takeWhile_upTo]
  rfl

theorem before_extended {bar : Bar} (h : t ≤ bar.openTime) :
    (extended history t bar h).before t = history.before t := by
  have hlast : ¬ bar.openTime < t := not_lt.mpr h
  have htake : (extended history t bar h).bars.takeWhile (fun bar => bar.openTime < t) =
      (upTo history t).bars := by
    rw [extended, List.takeWhile_append, takeWhile_upTo]
    simp [hlast]
  simp only [EvaluationFrame.before, htake]
  rfl

/-- Some window is tested on a bar from the date on. -/
def sees (history : History) (windows : List WalkForwardWindow) (t : Time) : Bool :=
  windows.any fun w => (history.getOhlcv w.testStart w.testEnd).any fun bar => t ≤ bar.openTime

def probeCandidate : SearchCandidate := ⟨"probe", "CompositeStrategy", []⟩

/-- One candidate, whose walk-forward fails with a text that tells whether it sees the date. -/
def probe (t : Time) : Computations where
  hypotheses _ := [probeCandidate]
  walkForward _ _ windows :=
    .error (if windows.any fun w => w.2.2.any fun bar => t ≤ bar.openTime then "seen" else "unseen")
  generateParameterNeighbors _ _ := []
  backtest _ _ _ _ := .ok []
  deflatedSharpeRatio sharpe _ := sharpe

def failedSeed (text : String) (seed : ℤ) : SeedRun :=
  { seed, status := .failed, failureReason := some text }

theorem selectChampionSeed_failed (text : String) (seeds : List ℤ) :
    selectChampionSeed (seeds.map (failedSeed text)) = none := by
  have hnone : (seeds.map (failedSeed text)).filter (fun seed => seed.status = .completed) = [] := by
    rw [List.filter_eq_nil_iff]
    intro run hrun
    obtain ⟨seed, -, rfl⟩ := List.mem_map.mp hrun
    simp [failedSeed]
  rw [selectChampionSeed, hnone]
  rfl

theorem outcome_probe {windows : List WalkForwardWindow}
    (hlt : zone config.manifest.rangeStart < zone config.manifest.rangeStop)
    (hsplit : splitWindows (zone config.manifest.rangeStart) (zone config.manifest.rangeStop)
      config.walkforward = .ok windows) :
    config.outcome (probe t) history zone = .ok {
      acceptance := [(probeCandidate, {
        seeds := config.seeds.map (failedSeed (if sees history windows t then "seen" else "unseen"))
        plateau := none
        dsrValue := none })]
      champion := none } := by
  have hrange := backtestRange_of_lt hlt
  generalize zone config.manifest.rangeStart = start, zone config.manifest.rangeStop = stop
    at hrange hsplit
  have hrun : config.seedRun (probe t) history (start, stop) probeCandidate = fun seed =>
      pure (failedSeed (if sees history windows t then "seen" else "unseen") seed) := by
    funext seed
    simp only [seedRun, hsplit, probe, List.any_map, windowBars, Function.comp_def]
    rfl
  have hacceptance : config.runResearchAcceptance (probe t) history (start, stop) 1 probeCandidate =
      .ok { seeds := config.seeds.map
              (failedSeed (if sees history windows t then "seen" else "unseen"))
            plateau := none, dsrValue := none } := by
    rw [runResearchAcceptance, hrun, List.mapM_pure]
    simp only [pure_bind, selectChampionSeed_failed]
    rfl
  have hcandidates : (probe t).hypotheses (sliceSegment history config.manifest.evidence) =
      [probeCandidate] := rfl
  simp only [outcome, hrange, ok_bind, hcandidates, List.length_singleton, List.mapM_cons,
    List.mapM_nil, hacceptance]
  exact congrArg (fun champion => Except.ok (AlphaOutcome.mk _ champion))
    (by simp only [selectFrozenCandidate, selectChampionSeed_failed])

/-- A test that ends in the lock-box sees a bar that opens at its end. -/
theorem testEnd_lt_of_blind (h : ∀ (compute : Computations) (history' : History),
      history'.before t = history.before t →
        config.outcome compute history' zone = config.outcome compute history zone)
    {windows : List WalkForwardWindow} (hsplit : splitWindows (zone config.manifest.rangeStart)
      (zone config.manifest.rangeStop) config.walkforward = .ok windows)
    {w : WalkForwardWindow} (hmem : w ∈ windows) : w.testEnd < t := by
  by_contra hnot
  have hle : t ≤ w.testEnd := not_lt.mp hnot
  have hw : Window (zone config.manifest.rangeStart) (zone config.manifest.rangeStop)
      config.walkforward w := by
    rw [splitWindows_ok hsplit] at hmem
    exact (window_of_mem hmem).2
  have hlt := hw.start_lt_stop
  let bar : Bar := { openTime := w.testEnd, open_ := 0, high := 0, low := 0, close := 0 }
  have hunseen : sees (upTo history t) windows t = false := by
    rw [sees, List.any_eq_false]
    intro w' _
    simp only [List.any_eq_true, not_exists, not_and, decide_eq_true_eq, not_le]
    intro b hb
    exact openTime_lt_of_mem_upTo (List.mem_of_mem_filter hb)
  have hseen : sees (extended history t bar hle) windows t = true := by
    rw [sees, List.any_eq_true]
    refine ⟨w, hmem, List.any_eq_true.mpr ⟨bar, ?_, decide_eq_true hle⟩⟩
    refine List.mem_filter.mpr ⟨List.mem_append_right _ (List.mem_singleton_self bar), ?_⟩
    exact decide_eq_true ⟨hw.testStart_lt_testEnd.le, le_rfl⟩
  -- The two histories agree before the date with the one given, but not with each other.
  have heq : config.outcome (probe t) (upTo history t) zone =
      config.outcome (probe t) (extended history t bar hle) zone :=
    (h (probe t) _ before_upTo).trans (h (probe t) _ (before_extended hle)).symm
  rw [outcome_probe hlt hsplit, outcome_probe hlt hsplit, hunseen, hseen] at heq
  have hseeds : config.seeds ≠ [] := by
    have := config.optimizationSeeds_pos
    simp only [seeds, ne_eq, List.map_eq_nil_iff, List.range_eq_nil]
    omega
  obtain ⟨seed, rest, hcons⟩ := List.exists_cons_of_ne_nil hseeds
  simp [hcons, failedSeed] at heq

end Reach

end AlphaConfig

/-- A job is blind to the lock-box of its manifest, and evaluates its champion there, just when it
stays clear of it, whatever the time zone. -/
theorem lockboxBlind_iff (config : AlphaConfig) (zone : Time → Time) (history : History) :
    config.LockboxBlind zone history ↔ config.StaysClear zone history := by
  constructor
  · intro h
    exact ⟨fun _ hsplit _ hmem => AlphaConfig.testEnd_lt_of_blind h.outcome_eq hsplit hmem,
      AlphaConfig.same_bars_of_metrics h.lockboxMetrics_eq⟩
  · rintro ⟨hwindows, t, hbounds, hbars⟩
    refine ⟨fun compute history' hagree => AlphaConfig.outcome_congr hagree hwindows, ?_⟩
    intro compute candidate params
    refine ⟨(t, zone config.manifest.rangeStop), ?_⟩
    have hlt : zone config.manifest.rangeStart < zone config.manifest.rangeStop := by
      obtain ⟨text, -, herror⟩ | ⟨_, -, hlt⟩ := AlphaConfig.lockboxBounds_cases config
        (zone config.manifest.rangeStart) (zone config.manifest.rangeStop)
      · rw [herror] at hbounds
        cases hbounds
      · exact hlt
    rw [AlphaConfig.lockboxMetrics_of_bounds (AlphaConfig.backtestRange_of_lt hlt) hbounds,
      AlphaConfig.getOhlcv_eq_iff.mpr hbars, sliceSegment]

/-- In a zone that sets the clock back the run misses the last bar of the manifest, wherever the
history holds it. -/
theorem not_staysClear_of_last {config : AlphaConfig} {zone : Time → Time} {history : History}
    {bar : Bar} (hbar : bar ∈ history.bars) (hlast : bar.openTime = config.manifest.rangeStop)
    (hback : zone config.manifest.rangeStop < config.manifest.rangeStop) :
    ¬ config.StaysClear zone history := by
  rintro ⟨-, t, -, hbars⟩
  have hstop := config.manifest.rangeStop_eq
  have hsegment := (hbars bar hbar).mpr
    ⟨by rw [hlast, hstop]; exact config.manifest.lockbox_start_le, (hlast.trans hstop).le⟩
  rw [hlast] at hsegment
  exact absurd hsegment.2 (not_le.mpr hback)

/-! ## Ten bars after a gap -/

/-- The days of the bars. -/
def gapDays : List ℕ := 0 :: List.range' 12 9

/-- Bars at midnight, flat but for the last one but one. -/
def gapHistory (close : ℚ) : History where
  bars := gapDays.map fun d : ℕ =>
    { openTime := (d : ℤ) * oneDay, open_ := 100, high := 110, low := 90
      close := if d = 19 then close else 100 }
  sorted := by
    rw [List.pairwise_map]
    refine List.Pairwise.imp ?_ (show gapDays.Pairwise (· < ·) by decide)
    intro a b hab
    have hle : (a : ℤ) * 86400000000 ≤ (b : ℤ) * 86400000000 := by omega
    exact hle
  increasing := by
    rw [List.pairwise_map]
    refine List.Pairwise.imp ?_ (show gapDays.Pairwise (· < ·) by decide)
    intro a b hab
    have hlt : (a : ℤ) * 86400000000 < (b : ℤ) * 86400000000 := by omega
    exact hlt

def gapManifest : SplitManifest where
  rangeStart := 0
  rangeStop := 20 * oneDay
  evidence := ⟨0, 14 * oneDay, 4⟩
  walkforward := ⟨15 * oneDay, 18 * oneDay, 4⟩
  lockbox := ⟨19 * oneDay, 20 * oneDay, 2⟩
  fractions := splitFractions
  evidence_lt_walkforward := by decide
  walkforward_start_le := by decide
  walkforward_lt_lockbox := by decide
  lockbox_start_le := by decide
  rangeStart_eq := rfl
  rangeStop_eq := rfl

def gapConfig : AlphaConfig where
  manifest := gapManifest
  walkforward := { trainDays := 5, testDays := 5, trainDays_pos := by decide, testDays_pos := by decide }
  optimizationSeeds := 1
  optimizationSeeds_pos := Nat.one_pos

/-- The day of a date of that history. -/
def gapDay (t : Time) : IsoTimestamps.Timestamp where
  year := 1970
  month := 1
  day := (t / oneDay).toNat % 31 + 1
  hour := 0
  minute := 0
  second := 0
  microsecond := 0
  offset := none
  year_valid := by decide
  month_valid := IsoTimestamps.Timestamp.january_valid
  day_valid := ⟨by omega, show (t / oneDay).toNat % 31 + 1 ≤ 31 by omega⟩
  time_valid := IsoTimestamps.Timestamp.midnight_valid
  microsecond_valid := IsoTimestamps.Timestamp.wholeSecond_valid

/-- The metrics of a strategy that buys each bar at its open and sells it at its close. -/
def barMetrics (bars : List Bar) : Dict ℚ :=
  [("total_trades", .int bars.length),
    ("sharpe_ratio", .float (bars.map fun bar => bar.close - bar.open_).sum)]

/-- That strategy has no parameter to optimize. -/
def buyEachBar : Computations where
  hypotheses _ := [⟨"buy_each_bar", "CompositeStrategy", []⟩]
  walkForward _ _ windows :=
    .ok { windows := windows.map fun w => {
            index := w.1.index
            trainStart := gapDay w.1.trainStart
            trainEnd := gapDay w.1.trainEnd
            testStart := gapDay w.1.testStart
            testEnd := gapDay w.1.testEnd
            status := .completed
            bestParams := [("strategy_params", .obj [])]
            oosMetrics := some (barMetrics w.2.2) }
          oosEquityCurve := []
          oosMetrics := barMetrics (windows.map fun w => w.2.2).flatten
          efficiency := none }
  generateParameterNeighbors _ _ := []
  backtest _ _ _ bars := .ok (barMetrics bars)
  deflatedSharpeRatio sharpe _ := sharpe

/-- Brasília, three hours behind UTC. -/
def brasilia (t : Time) : Time := t - 10800000000

/-- The bar of day 19 is in the lock-box segment, and a seed is tested on it; the lock-box is evaluated
on four bars, three of which are in the walk-forward segment, and without its last bar. -/
theorem seeds_see_lockbox :
    buildSplitManifest (gapHistory 100) splitFractions = .ok gapManifest ∧
      buildSplitManifest (gapHistory 110) splitFractions = .ok gapManifest ∧
      (gapHistory 100).before gapManifest.lockbox.start =
        (gapHistory 110).before gapManifest.lockbox.start ∧
      gapConfig.outcome buyEachBar (gapHistory 100) brasilia ≠
        gapConfig.outcome buyEachBar (gapHistory 110) brasilia ∧
      computeLockboxBounds (brasilia gapManifest.rangeStart) (brasilia gapManifest.rangeStop)
        gapConfig.lockbox = .ok (brasilia (16 * oneDay),
          some (brasilia (16 * oneDay), brasilia (20 * oneDay))) ∧
      ((gapHistory 100).getOhlcv (brasilia (16 * oneDay)) (brasilia (20 * oneDay))).map
        Bar.openTime = [16 * oneDay, 17 * oneDay, 18 * oneDay, 19 * oneDay] ∧
      (sliceSegment (gapHistory 100) gapManifest.lockbox).map Bar.openTime =
        [19 * oneDay, 20 * oneDay] := by
  have hobjectives : (gapConfig.outcome buyEachBar (gapHistory 100) brasilia).toOption.map
        (fun outcome => outcome.acceptance.map fun a => a.2.seeds.map SeedRun.objectiveValue) ≠
      (gapConfig.outcome buyEachBar (gapHistory 110) brasilia).toOption.map
        (fun outcome => outcome.acceptance.map fun a => a.2.seeds.map SeedRun.objectiveValue) := by
    decide +kernel
  refine ⟨eq_ok_of_toOption (by decide +kernel), eq_ok_of_toOption (by decide +kernel), rfl, ?_,
    eq_ok_of_toOption (by decide +kernel), by decide +kernel, by decide +kernel⟩
  intro heq
  exact hobjectives (congrArg (fun outcome => outcome.toOption.map
    fun outcome => outcome.acceptance.map fun a => a.2.seeds.map SeedRun.objectiveValue) heq)

end QBackend.Research
