import QBackend.DisjointSlices
import QBackend.StagedAgreement

/-!
# What a genetic search reads of its frame

The walk-forward analysis of a candidate is served the rows of its windows, which end with the
lock-box at the latest. The probe frame of the seeding, of the repair of mutants and of the
pre-screen is the whole frame, with the lock-box in it. So a search does not see its lock-box where
it does not probe, and no bar opens at the end of a test on the start of the lock-box.
-/

namespace QBackend.Optimization

open Execution (Time Bar)
open OrderedSeries

/-! ## Rows before a date -/

/-- The bars before a date. -/
def EvaluationFrame.before (frame : EvaluationFrame) (t : Time) : EvaluationFrame where
  bars := frame.bars.takeWhile fun bar => bar.openTime < t
  sorted := frame.sorted.sublist (List.takeWhile_sublist _)

/-- No bar opens at the date. -/
def EvaluationFrame.NoneAt (frame : EvaluationFrame) (t : Time) : Prop :=
  ∀ bar ∈ frame.bars, bar.openTime ≠ t

section Before

variable (frame : EvaluationFrame) (t : Time)

/-- The rows from the date on, with their positions. -/
def EvaluationFrame.rest : List Row :=
  (frame.bars.dropWhile fun bar => bar.openTime < t).zipIdx (frame.before t).bars.length

theorem rows_eq_before : frame.rows = (frame.before t).rows ++ frame.rest t := by
  have hsplit : frame.bars = (frame.before t).bars ++
      frame.bars.dropWhile fun bar => bar.openTime < t := List.takeWhile_append_dropWhile.symm
  rw [EvaluationFrame.rows, hsplit, List.zipIdx_append]
  simp only [EvaluationFrame.rows, EvaluationFrame.rest, Nat.zero_add]

variable {frame t}

theorem le_of_mem_rest {r : Row} (h : r ∈ frame.rest t) : t ≤ r.1.openTime := by
  have hmem : r.1 ∈ frame.bars.dropWhile fun bar => bar.openTime < t :=
    List.fst_mem_of_mem_zipIdx h
  exact le_of_mem_dropWhile_lt frame.sorted hmem

theorem searchsorted_before {start : Time} (hstart : start ≤ t) :
    searchsorted frame.rows start = searchsorted (frame.before t).rows start := by
  have hrest : (frame.rest t).takeWhile (fun r => r.1.openTime < start) = [] := by
    cases hcases : frame.rest t with
    | nil => rfl
    | cons r rest =>
      have hle : t ≤ r.1.openTime := le_of_mem_rest (by rw [hcases]; exact List.mem_cons_self)
      have hnot : ¬ r.1.openTime < start := not_lt.mpr (hstart.trans hle)
      simp [hnot]
  rw [searchsorted, searchsorted, rows_eq_before frame t, List.takeWhile_append, hrest]
  split
  · rename_i hall
    rw [List.append_nil]
    exact hall.symm
  · rfl

/-- A run that ends before the rest of the frame is served none of it. -/
theorem dataProvider_before {range : RunRange} (hstart : range.start ≤ t)
    (hstop : ∀ r ∈ frame.rest t, range.stop < r.1.openTime) :
    dataProvider frame range = dataProvider (frame.before t) range := by
  have hnone : ∀ rows : List Row, (∀ r ∈ rows, r ∈ frame.rest t) →
      rows.filter (fun r => r.1.openTime ≤ range.stop) = [] := by
    intro rows hrows
    rw [List.filter_eq_nil_iff]
    intro r hr
    simpa using hstop r (hrows r hr)
  unfold dataProvider
  by_cases hwarm : 0 < range.warmupBars
  · rw [if_pos hwarm, if_pos hwarm, searchsorted_before hstart]
    simp only [rows_eq_before frame t, List.drop_append, List.filter_append]
    rw [hnone _ (fun r hr => List.mem_of_mem_drop hr), List.append_nil]
  · rw [if_neg hwarm, if_neg hwarm, rows_eq_before frame t, List.filter_append]
    have hrest : (frame.rest t).filter
        (fun r => range.start ≤ r.1.openTime ∧ r.1.openTime ≤ range.stop) = [] := by
      rw [List.filter_eq_nil_iff]
      intro r hr
      have := hstop r hr
      simp only [decide_eq_true_eq, not_and, not_le]
      intro _
      exact this
    rw [hrest, List.append_nil]

end Before

/-! ## The rows of the windows -/

/-- The rows that a window is served: those of its optimization, and those of its test for each
warm-up. -/
structure WindowRows where
  train : List Row
  test : ℤ → List Row

def windowRows (frame : EvaluationFrame) (w : WalkForwardWindow) : WindowRows where
  train := dataProvider frame w.trainRange
  test warmupBars := dataProvider frame (w.testRange warmupBars)

/-- The windows read the frame up to the end of the walk-forward only, unless a bar opens there and a
test ends there. -/
theorem windowRows_before {frame : EvaluationFrame} {start wfEnd : Time} {cfg : WalkForwardConfig}
    {w : WalkForwardWindow} (hw : Window start wfEnd cfg w)
    (hboundary : w.testEnd = wfEnd → frame.NoneAt wfEnd) :
    windowRows frame w = windowRows (frame.before wfEnd) w := by
  have htest := hw.testEnd_le
  have hlt := hw.testStart_lt_testEnd
  have htrain := hw.trainStart_lt_trainEnd
  have htrainEnd := hw.trainEnd_eq
  have hrest : ∀ r ∈ frame.rest wfEnd, w.testEnd < r.1.openTime := by
    intro r hr
    have hle := le_of_mem_rest hr
    by_cases hend : w.testEnd = wfEnd
    · have hmem : r.1 ∈ frame.bars :=
        (List.dropWhile_sublist _).subset (List.fst_mem_of_mem_zipIdx hr)
      have hne := hboundary hend r.1 hmem
      exact hend ▸ lt_of_le_of_ne hle (Ne.symm hne)
    · exact lt_of_lt_of_le (lt_of_le_of_ne htest hend) hle
  have htrainRows : dataProvider frame w.trainRange =
      dataProvider (frame.before wfEnd) w.trainRange := by
    apply dataProvider_before
    · simp only [WalkForwardWindow.trainRange]
      linarith
    · intro r hr
      have := hrest r hr
      simp only [WalkForwardWindow.trainRange]
      linarith
  have htestRows : ∀ warmupBars, dataProvider frame (w.testRange warmupBars) =
      dataProvider (frame.before wfEnd) (w.testRange warmupBars) := by
    intro warmupBars
    apply dataProvider_before
    · simp only [WalkForwardWindow.testRange]
      linarith
    · exact hrest
  rw [windowRows, windowRows, htrainRows]
  exact congrArg (WindowRows.mk _) (funext htestRows)

end QBackend.Optimization

namespace QBackend.GeneticSearch

open FallibleSteps
open Execution (Time Bar)
open Optimization

variable {Rng : Type}

/-! ## A search on a frame -/

inductive SearchPath where
  | inProcess | staged
  deriving DecidableEq, Repr

/-- A genetic configuration with a lock-box, the generator of its seed and what is computed from
bars: the initial population and the operators, each with the probe frame that it repairs genomes
on, the entries that `genome_signal_activity` counts, and the walk-forward analysis of a genome on
the rows of the windows. -/
structure FrameSearch (Rng : Type) where
  genetic : GeneticSearchConfig
  gates : GateConfig
  log : ℚ → ℚ
  minimizeDrawdown : Bool
  start : Time
  stop : Time
  walkforward : WalkForwardConfig
  lockbox : LockboxConfig
  rng : Rng
  buildInitialPopulation : Option (List Bar) → Rng → List Individual × Rng
  operators : Option (List Bar) → Operators Rng
  countEntries : GenomeDsl.Genome → List Bar → ℕ
  walkForward : SearchPath → GenomeDsl.Genome → List WindowRows → Except String WalkForwardOutcome

/-- What a search shows but for the metrics of the lock-box. -/
structure SearchOutcome where
  initialPopulation : List Individual
  generations : List (List Entry)
  prescreened : List (List String)
  ranking : List CandidateResult

namespace FrameSearch

variable (search : FrameSearch Rng) (path : SearchPath) (frame : EvaluationFrame)

/-- `_resolve_probe_frame` and `_genetic_probe_frame`. -/
def probeFrame : Option (List Bar) :=
  match path with
  | .inProcess => if frame.bars = [] then none else some frame.bars
  | .staged =>
    if search.genetic.minSeedSignals = 0 ∧ search.genetic.prescreenMinSignals = 0 then none
    else some frame.bars

/-- The probe frame where `probe_enabled` holds: for the seeding and for the repair of mutants. -/
def repairFrame : Option (List Bar) :=
  (search.probeFrame path frame).filter fun bars =>
    bars ≠ [] ∧ 0 < search.genetic.minSeedSignals

/-- The pre-screen; the orchestrator does not probe an empty frame. -/
def isTradeable (genome : GenomeDsl.Genome) : Bool :=
  match search.probeFrame path frame with
  | none => true
  | some bars =>
    search.genetic.prescreenMinSignals = 0 || (path = .inProcess && bars.isEmpty) ||
      search.genetic.prescreenMinSignals ≤ search.countEntries genome bars

def setting : Setting Rng where
  genetic := search.genetic
  gates := search.gates
  log := search.log
  operators := search.operators (search.repairFrame path frame)

/-- The evaluation of the candidates on the truncated range. -/
def evaluator (wfEnd : Time) : Evaluator where
  minimizeDrawdown := search.minimizeDrawdown
  walkForward genome :=
    match splitWindows search.start wfEnd search.walkforward with
    | .error text => .error text
    | .ok windows => search.walkForward path genome (windows.map (windowRows frame))
  isTradeable := search.isTradeable path frame

def initialPopulation : List Individual × Rng :=
  search.buildInitialPopulation (search.repairFrame path frame) search.rng

def outcome : Except SearchFailure SearchOutcome :=
  match computeLockboxBounds search.start search.stop search.lockbox with
  | .error text => .error (.evaluation text)
  | .ok (wfEnd, _) =>
    let setting := search.setting path frame
    let (population, rng) := search.initialPopulation path frame
    match evolve setting (search.evaluator path frame wfEnd) search.genetic.generations
        (Provider.init setting rng population) with
    | .error e => .error (.breeding e)
    | .ok generations => .ok {
        initialPopulation := population
        generations
        prescreened := generations.map fun entries =>
          (entries.filter fun entry =>
            !search.isTradeable path frame entry.individual.genome).map fun entry =>
              entry.individual.genomeId
        ranking := rankResults ((generations.getLast?.getD []).map Entry.result) }

end FrameSearch

/-! ## Searches that do not probe -/

section Blind

variable {search : FrameSearch Rng} {path : SearchPath}

theorem repairFrame_eq_none (hseed : search.genetic.minSeedSignals = 0) (frame : EvaluationFrame) :
    search.repairFrame path frame = none := by
  rw [FrameSearch.repairFrame, Option.filter_eq_none_iff]
  intro bars _
  simp [hseed]

theorem isTradeable_eq_true (hprescreen : search.genetic.prescreenMinSignals = 0)
    (frame : EvaluationFrame) (genome : GenomeDsl.Genome) :
    search.isTradeable path frame genome = true := by
  unfold FrameSearch.isTradeable
  split
  · rfl
  · simp [hprescreen]

/-- The evaluation of a genome is the same on frames that agree before the lock-box, unless a bar
opens at its start. -/
theorem evaluator_eq {frame frame' : EvaluationFrame} {wfEnd : Time}
    (hprescreen : search.genetic.prescreenMinSignals = 0)
    (hagree : frame.before wfEnd = frame'.before wfEnd)
    (hboundary : ∀ windows, splitWindows search.start wfEnd search.walkforward = .ok windows →
      ∀ w ∈ windows, w.testEnd = wfEnd → frame.NoneAt wfEnd ∧ frame'.NoneAt wfEnd) :
    search.evaluator path frame wfEnd = search.evaluator path frame' wfEnd := by
  have htradeable : search.isTradeable path frame = search.isTradeable path frame' := by
    funext genome
    rw [isTradeable_eq_true hprescreen, isTradeable_eq_true hprescreen]
  rw [FrameSearch.evaluator, FrameSearch.evaluator, htradeable]
  cases hwindows : splitWindows search.start wfEnd search.walkforward with
  | error text => rfl
  | ok windows =>
    have hrows : windows.map (windowRows frame) = windows.map (windowRows frame') := by
      apply List.map_congr_left
      intro w hmem
      have hw : Window search.start wfEnd search.walkforward w := by
        rw [splitWindows_ok hwindows] at hmem
        exact (window_of_mem hmem).2
      have hend := hboundary windows hwindows w hmem
      rw [windowRows_before hw (fun h => (hend h).1), windowRows_before hw (fun h => (hend h).2),
        hagree]
    simp only [hrows]

end Blind

/-- A search that does not probe shows the same on two frames that agree before its lock-box, as long
as no bar opens at the start of the lock-box where a test ends. -/
theorem search_blind (search : FrameSearch Rng) (path : SearchPath)
    (frame frame' : EvaluationFrame) (wfEnd lockboxStart lockboxEnd : Time)
    (hbounds : computeLockboxBounds search.start search.stop search.lockbox =
      .ok (wfEnd, some (lockboxStart, lockboxEnd)))
    (hagree : frame.before lockboxStart = frame'.before lockboxStart)
    (hseed : search.genetic.minSeedSignals = 0)
    (hprescreen : search.genetic.prescreenMinSignals = 0)
    (hboundary : ∀ windows, splitWindows search.start wfEnd search.walkforward = .ok windows →
      ∀ w ∈ windows, w.testEnd = wfEnd → frame.NoneAt wfEnd ∧ frame'.NoneAt wfEnd) :
    search.outcome path frame = search.outcome path frame' := by
  have hstart : lockboxStart = wfEnd := (computeLockboxBounds_ok hbounds _ rfl).1
  rw [hstart] at hagree
  have hrepair : search.repairFrame path frame = search.repairFrame path frame' := by
    rw [repairFrame_eq_none hseed, repairFrame_eq_none hseed]
  have hsetting : search.setting path frame = search.setting path frame' := by
    rw [FrameSearch.setting, FrameSearch.setting, hrepair]
  have hpopulation : search.initialPopulation path frame =
      search.initialPopulation path frame' := by
    rw [FrameSearch.initialPopulation, FrameSearch.initialPopulation, hrepair]
  have htradeable : search.isTradeable path frame = search.isTradeable path frame' := by
    funext genome
    rw [isTradeable_eq_true hprescreen, isTradeable_eq_true hprescreen]
  simp only [FrameSearch.outcome, hbounds, hsetting, hpopulation, htradeable,
    evaluator_eq hprescreen hagree hboundary]

/-! ## Daily bars -/

/-- `_count_rising_edges`; the first value of a series of two or more is no edge. -/
def countRisingEdges (values : List Bool) : ℕ :=
  match values with
  | [] => 0
  | [value] => value.toNat
  | _ :: later => (values.zip later).countP fun pair => !pair.1 && pair.2

/-- It buys a bar that closes above its open, and sells one that closes below. -/
def bodyGenome : GenomeDsl.Genome where
  nodes :=
    [{ id := "n1", kind := .sourceClose }, { id := "n2", kind := .sourceOpen },
      { id := "up", kind := .cmpGt, inputs := ["n1", "n2"] },
      { id := "down", kind := .cmpLt, inputs := ["n1", "n2"] },
      { id := "exit", kind := .exitOppositeSignal }]
  entryLong := "up"
  entryShort := "down"
  exitLong := "exit"
  exitShort := "exit"

/-- The entries of that genome. -/
def bodyEntries (bars : List Bar) : ℕ :=
  countRisingEdges (bars.map fun bar => bar.open_ < bar.close) +
    countRisingEdges (bars.map fun bar => bar.close < bar.open_)

/-- A search over copies of one genome on five days, the last of which is the lock-box. -/
def dailySearch (prescreenMinSignals : ℕ) : FrameSearch Unit where
  genetic := { populationSize := 10, generations := 2, eliteCount := 1, prescreenMinSignals
               minSeedSignals := 0 }
  gates := {}
  log := id
  minimizeDrawdown := false
  start := 0
  stop := 5 * oneDay
  walkforward := dailyConfig
  lockbox := dailyLockbox
  rng := ()
  buildInitialPopulation _ _ :=
    ((initialGenomeIds 0 10).map fun genomeId => { genomeId, genome := bodyGenome }, ())
  operators _ := firstOperators
  countEntries _ := bodyEntries
  walkForward _ _ windows :=
    let bars := windows.map fun w => (w.test 0).length
    .ok { windowCount := windows.length, completedWindows := windows.length
          oosMetrics := some { totalTrades := bars.sum }, objective := 1 }

/-- Six flat bars at noon but for the last one. -/
def lastBarFrame (close : ℚ) : EvaluationFrame where
  bars := (List.range 6).map fun d : ℕ =>
    { openTime := (d : ℤ) * oneDay + 43200000000, open_ := 100, high := 101, low := 99
      close := if d = 5 then close else 100 }
  sorted := by
    rw [List.pairwise_map]
    refine List.Pairwise.imp ?_ (List.pairwise_lt_range (n := 6))
    intro a b hab
    have hle : (a : ℤ) * 86400000000 + 43200000000 ≤ (b : ℤ) * 86400000000 + 43200000000 := by
      omega
    exact hle

theorem before_lastBarFrame (close close' : ℚ) :
    (lastBarFrame close).before (4 * oneDay) = (lastBarFrame close').before (4 * oneDay) := rfl

theorem noneAt_lastBarFrame (close : ℚ) : (lastBarFrame close).NoneAt (4 * oneDay) := by
  intro bar hbar
  obtain ⟨d, -, rfl⟩ := List.mem_map.mp hbar
  have hne : (d : ℤ) * 86400000000 + 43200000000 ≠ 4 * 86400000000 := by omega
  exact hne

/-- Without a pre-screen the last bar makes no difference. -/
theorem search_blind_daily :
    (dailySearch 0).outcome .inProcess (lastBarFrame 100) =
      (dailySearch 0).outcome .inProcess (lastBarFrame 101) :=
  search_blind (dailySearch 0) .inProcess (lastBarFrame 100) (lastBarFrame 101) (4 * oneDay)
    (4 * oneDay) (5 * oneDay) dailyBounds (before_lastBarFrame 100 101) rfl rfl
    (fun _ _ _ _ _ => ⟨noneAt_lastBarFrame 100, noneAt_lastBarFrame 101⟩)

/-- The last bar, in the lock-box, decides whether the genomes survive the pre-screen. -/
theorem search_sees_lockbox :
    computeLockboxBounds (dailySearch 1).start (dailySearch 1).stop (dailySearch 1).lockbox =
        .ok (4 * oneDay, some (4 * oneDay, 5 * oneDay)) ∧
      (lastBarFrame 100).before (4 * oneDay) = (lastBarFrame 101).before (4 * oneDay) ∧
      (dailySearch 1).outcome .inProcess (lastBarFrame 100) ≠
        (dailySearch 1).outcome .inProcess (lastBarFrame 101) ∧
      (dailySearch 1).outcome .staged (lastBarFrame 100) ≠
        (dailySearch 1).outcome .staged (lastBarFrame 101) := by
  have hscreened : ∀ path : SearchPath,
      ((dailySearch 1).outcome path (lastBarFrame 100)).toOption.map SearchOutcome.prescreened ≠
        ((dailySearch 1).outcome path (lastBarFrame 101)).toOption.map
          SearchOutcome.prescreened := by
    intro path
    cases path with
    | inProcess => decide +kernel
    | staged => decide +kernel
  have hdiffer : ∀ path, (dailySearch 1).outcome path (lastBarFrame 100) ≠
      (dailySearch 1).outcome path (lastBarFrame 101) := by
    intro path heq
    exact hscreened path (congrArg
      (fun outcome => outcome.toOption.map SearchOutcome.prescreened) heq)
  exact ⟨dailyBounds, before_lastBarFrame 100 101, hdiffer _, hdiffer _⟩

end QBackend.GeneticSearch
