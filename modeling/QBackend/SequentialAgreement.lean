import QBackend.WalkForwardAggregation
import QBackend.FanInResults
import QBackend.SingleFinalization
import QBackend.WalkForward
import Mathlib.Data.List.Perm.Basic

/-!
# The fanned-out walk-forward gives the sequential result

The finalizer decodes what the windows staged, sorts it by the window and aggregates it. The codec
loses nothing and the windows are numbered in their order, so neither the order in which the workers
finish nor the order in which the hash is read shows in the result.
-/

namespace QBackend.Optimization

open Execution FallibleSteps JsonValues RunInvariants Tasks

section Agreement

variable {F : Type} [IntCast F] {engine : WindowEngine F} {mode : ObjectiveMode}
  {windows : List DatedWindow} {w : DatedWindow}

/-! ## What a window gives -/

/-- The result of a window, as one without a result where it raises. -/
def leafPair (engine : WindowEngine F) (mode : ObjectiveMode) (w : DatedWindow) :
    WindowResult F × Option F :=
  match runSingleWindow engine mode w with
  | .ok pair => pair
  | .error _ => (noResultWindow w, none)

theorem stagedPartial_eq (engine : WindowEngine F) (mode : ObjectiveMode) (w : DatedWindow) :
    stagedPartial engine mode w =
      windowPartialToDict (leafPair engine mode w).1 (leafPair engine mode w).2 := by
  unfold stagedPartial leafPair
  cases runSingleWindow engine mode w with
  | ok pair => rfl
  | error e => rfl

theorem fromDict_stagedPartial (engine : WindowEngine F) (mode : ObjectiveMode) (w : DatedWindow) :
    windowPartialFromDict (stagedPartial engine mode w) = .ok (leafPair engine mode w) := by
  rw [stagedPartial_eq, windowPartialFromDict_toDict]

/-- A result is about the window that it was computed for. -/
theorem runSingleWindow_window {pair : WindowResult F × Option F}
    (h : runSingleWindow engine mode w = .ok pair) : pair.1.toDatedWindow = w := by
  unfold runSingleWindow at h
  obtain ⟨trial, -, h⟩ := bind_eq_ok.mp h
  cases trial with
  | none =>
    rw [← pure_eq_ok.mp h]
    rfl
  | some trial =>
    obtain ⟨isObjective, -, h⟩ := bind_eq_ok.mp h
    obtain ⟨⟨oosMetrics, oosTrades⟩, -, h⟩ := bind_eq_ok.mp h
    rw [← pure_eq_ok.mp h]

theorem leafPair_index (engine : WindowEngine F) (mode : ObjectiveMode) (w : DatedWindow) :
    (leafPair engine mode w).1.index = w.index := by
  unfold leafPair
  split
  next pair hrun => rw [runSingleWindow_window hrun]
  next => rfl

theorem runWindows_eq (h : ∀ w ∈ windows, ∃ pair, runSingleWindow engine mode w = .ok pair) :
    runWindows (runSingleWindow engine mode) (fun _ => false) windows =
      .ok (windows.map (leafPair engine mode)) := by
  induction windows with
  | nil => rfl
  | cons w windows ih =>
    obtain ⟨pair, hpair⟩ := h w (by simp)
    have hleaf : leafPair engine mode w = pair := by
      unfold leafPair
      rw [hpair]
    simp only [runWindows, Bool.false_eq_true, if_false]
    refine bind_of_ok hpair (bind_of_ok (ih fun w' hw' => h w' (by simp [hw'])) ?_)
    rw [List.map_cons, hleaf]
    rfl

theorem mapM_fromDict (engine : WindowEngine F) (mode : ObjectiveMode)
    (windows : List DatedWindow) :
    (windows.map (stagedPartial engine mode)).mapM windowPartialFromDict =
      .ok (windows.map (leafPair engine mode)) := by
  induction windows with
  | nil => rfl
  | cons w windows ih =>
    rw [List.map_cons, List.mapM_cons]
    exact bind_of_ok (fromDict_stagedPartial engine mode w) (bind_of_ok ih rfl)

/-! ## The numbers of the windows -/

/-- The windows are numbered in their order, as `split_windows` numbers them. -/
def Numbered (windows : List DatedWindow) : Prop :=
  windows.map DatedWindow.index = List.range windows.length

/-- The bounds of a window on the wall clock. -/
def DatedWindow.bounds (w : DatedWindow) : WalkForwardWindow :=
  ⟨w.index, w.trainStart.wallClock, w.trainEnd.wallClock, w.testStart.wallClock,
    w.testEnd.wallClock⟩

theorem Numbered.index_getElem (h : Numbered windows) {i : ℕ} (hi : i < windows.length) :
    windows[i].index = i := by
  have hindex : (windows.map DatedWindow.index)[i]? = (List.range windows.length)[i]? := by
    rw [h]
  rw [List.getElem?_map, List.getElem?_eq_getElem hi, List.getElem?_range hi] at hindex
  exact Option.some.inj hindex

theorem Numbered.getElem?_index (h : Numbered windows) (hw : w ∈ windows) :
    windows[w.index]? = some w := by
  obtain ⟨i, hi, rfl⟩ := List.getElem_of_mem hw
  rw [h.index_getElem hi, List.getElem?_eq_getElem hi]

theorem Numbered.ordered (h : Numbered windows) :
    OrderedSeries.Ordered (fun pair : WindowResult F × Option F => pair.1.index)
      (windows.map (leafPair engine mode)) := by
  have hindices : (windows.map DatedWindow.index).Pairwise (· < ·) := by
    rw [h]
    exact List.pairwise_lt_range
  refine List.pairwise_map.mpr ((List.pairwise_map.mp hindices).imp fun hlt => ?_)
  simp only [leafPair_index]
  exact hlt

/-- `payload["index"]`, which the windows are sorted by. -/
def payloadIndex (payload : Json F) : ℕ :=
  match payload.asObject >>= fun fields => require fields "index" >>= Json.asNat with
  | .ok index => index
  | .error _ => 0

theorem payloadIndex_stagedPartial (engine : WindowEngine F) (mode : ObjectiveMode)
    (w : DatedWindow) : payloadIndex (stagedPartial engine mode w) = w.index := by
  rw [stagedPartial_eq, ← leafPair_index engine mode w]
  rfl

/-! ## The hash after the workers have finished -/

/-- The partial result of a window by its number. -/
def expectedPartial (engine : WindowEngine F) (mode : ObjectiveMode) (windows : List DatedWindow)
    (i : ℕ) : Json F :=
  (windows[i]?.map (stagedPartial engine mode)).getD .null

theorem map_expectedPartial (engine : WindowEngine F) (mode : ObjectiveMode)
    (windows : List DatedWindow) :
    (List.range windows.length).map (expectedPartial engine mode windows) =
      windows.map (stagedPartial engine mode) := by
  apply List.ext_getElem
  · simp
  · intro i hi _
    have hi : i < windows.length := by simpa using hi
    simp [expectedPartial, hi]

theorem Numbered.expectedPartial_index (h : Numbered windows) (hw : w ∈ windows) :
    expectedPartial engine mode windows w.index = stagedPartial engine mode w := by
  simp [expectedPartial, h.getElem?_index hw]

theorem stageAll_spec (hnumbered : Numbered windows) (finished : List DatedWindow)
    (hfinished : ∀ w ∈ finished, w ∈ windows) :
    (stageAll engine mode finished).Holds (expectedPartial engine mode windows) ∧
      ∀ i, i ∈ (stageAll engine mode finished).staged ↔ ∃ w ∈ finished, w.index = i := by
  induction finished using List.reverseRecOn with
  | nil => exact ⟨.empty rfl, by simp [stageAll, JobKeys.staged]⟩
  | append_singleton finished w ih =>
    obtain ⟨hholds, hstaged⟩ := ih fun w' hw' => hfinished w' (by simp [hw'])
    have hw : w ∈ windows := hfinished w (by simp)
    have hstep : stageAll engine mode (finished ++ [w]) =
        (stageAll engine mode finished).stashPartial w.index (stagedPartial engine mode w) := by
      simp [stageAll]
    rw [hstep, ← hnumbered.expectedPartial_index hw]
    refine ⟨hholds.stash w.index, fun i => ?_⟩
    rw [JobKeys.mem_staged_stashPartial, hstaged]
    constructor
    · rintro (rfl | ⟨w', hw', rfl⟩)
      · exact ⟨w, by simp, rfl⟩
      · exact ⟨w', by simp [hw'], rfl⟩
    · rintro ⟨w', hw', rfl⟩
      rcases List.mem_append.mp hw' with hw' | hw'
      · exact .inr ⟨w', hw', rfl⟩
      · rw [List.mem_singleton.mp hw']
        exact .inl rfl

theorem stageAll_loadPartials (hnumbered : Numbered windows) {finished : List DatedWindow}
    (hfinished : ∀ w, w ∈ finished ↔ w ∈ windows) :
    (stageAll engine mode finished).loadPartials.Perm (windows.map (stagedPartial engine mode)) := by
  obtain ⟨hholds, hstaged⟩ : (stageAll engine mode finished).Holds _ ∧ _ :=
    stageAll_spec hnumbered finished fun w hw => (hfinished w).mp hw
  rw [← map_expectedPartial]
  refine hholds.loadPartials_perm fun i => ?_
  rw [hstaged]
  constructor
  · rintro ⟨w, hw, rfl⟩
    exact (List.getElem?_eq_some_iff.mp (hnumbered.getElem?_index ((hfinished w).mp hw))).1
  · intro hi
    exact ⟨windows[i], (hfinished _).mpr (List.getElem_mem hi), hnumbered.index_getElem hi⟩

/-! ## The aggregation of partial results in any order -/

variable [Add F] [Sub F] [Mul F] [Div F] [BEq F] [LT F] [DecidableLT F] [LE F] [DecidableLE F]
  {numerics : Numerics F} {cfg : AggregationConfig F}

theorem runSequential_eq (h : ∀ w ∈ windows, ∃ pair, runSingleWindow engine cfg.mode w = .ok pair) :
    runSequential numerics cfg engine (fun _ => false) windows =
      aggregatePairs numerics cfg (windows.map (leafPair engine cfg.mode)) :=
  bind_of_ok (runWindows_eq h) rfl

theorem aggregatePartials_perm (hnumbered : Numbered windows) {partials : List (Json F)}
    (hperm : partials.Perm (windows.map (stagedPartial engine cfg.mode))) :
    aggregatePartials numerics cfg partials =
      aggregatePairs numerics cfg (windows.map (leafPair engine cfg.mode)) := by
  obtain ⟨pairs, hdecoded, hpairs⟩ :=
    List.perm_comp_forall₂ hperm (forall₂_of_mapM (mapM_fromDict engine cfg.mode windows))
  refine bind_of_ok (mapM_eq_ok_of_forall₂ hdecoded) ?_
  rw [OrderedSeries.mergeSort_eq_of_perm hnumbered.ordered hpairs]

/-! ## The fan-in of a walk-forward job -/

/-- The partial result that the worker of a window stages, none where the window raises. -/
def leafOutcome (engine : WindowEngine F) (mode : ObjectiveMode) (windows : List DatedWindow)
    (i : ℕ) : Option (Json F) :=
  windows[i]?.bind fun w =>
    (runSingleWindow engine mode w).toOption.map fun pair => windowPartialToDict pair.1 pair.2

/-- The job of a walk-forward over some windows. -/
def walkForwardJob (numerics : Numerics F) (cfg : AggregationConfig F)
    (windows : List DatedWindow) (hne : windows ≠ []) : Job (Json F) (WalkForwardResult F) where
  total := windows.length
  total_pos := List.length_pos_of_ne_nil hne
  noResult i := (windows[i]?.map fun w => windowPartialToDict (noResultWindow w) none).getD .null
  windowIndex := payloadIndex
  finalizeResult payloads :=
    (payloads.mapM windowPartialFromDict >>= aggregatePairs numerics cfg).toOption

/-- Every worker counts its window once and stages what the window gives. -/
def LeavesComputed (engine : WindowEngine F) (mode : ObjectiveMode) (windows : List DatedWindow)
    (s : FanIn (Json F) (WalkForwardResult F)) (e : Event (Json F)) : Prop :=
  CountsOnce s e ∧ ∀ i outcome, e = .advance i outcome → s.leaves i = .working →
    outcome = leafOutcome engine mode windows i

theorem leafOutcome_getD {hne : windows ≠ []} (i : ℕ) :
    (leafOutcome engine mode windows i).getD ((walkForwardJob numerics cfg windows hne).noResult i) =
      expectedPartial engine mode windows i := by
  cases hwindow : windows[i]? with
  | none => simp [leafOutcome, walkForwardJob, expectedPartial, hwindow]
  | some w =>
    cases hrun : runSingleWindow engine mode w with
    | ok pair =>
      simp [leafOutcome, expectedPartial, stagedPartial, hwindow, hrun, Except.toOption]
    | error e =>
      simp [leafOutcome, walkForwardJob, expectedPartial, stagedPartial, hwindow, hrun,
        Except.toOption]

theorem stagesOnce_of_computed {hne : windows ≠ []}
    {s : FanIn (Json F) (WalkForwardResult F)} {e : Event (Json F)}
    (h : LeavesComputed engine mode windows s e) :
    StagesOnce (walkForwardJob numerics cfg windows hne) (expectedPartial engine mode windows)
      s e := by
  refine ⟨h.1, ?_⟩
  cases e with
  | advance i outcome =>
    intro hworking
    rw [h.2 i outcome rfl hworking]
    exact leafOutcome_getD i
  | coordinate | deliver | acknowledge | workerDies | requestCancel | elapse => trivial

theorem finalizeResult_inOrder {hne : windows ≠ []} :
    (walkForwardJob numerics cfg windows hne).finalizeResult
        (inOrder (walkForwardJob numerics cfg windows hne)
          (expectedPartial engine cfg.mode windows)) =
      (aggregatePairs numerics cfg (windows.map (leafPair engine cfg.mode))).toOption := by
  have hpartials : inOrder (walkForwardJob numerics cfg windows hne)
      (expectedPartial engine cfg.mode windows) = windows.map (stagedPartial engine cfg.mode) :=
    map_expectedPartial engine cfg.mode windows
  rw [hpartials]
  show ((windows.map (stagedPartial engine cfg.mode)).mapM windowPartialFromDict >>=
    aggregatePairs numerics cfg).toOption = _
  rw [mapM_fromDict]
  rfl

theorem walkForwardJob_results (hnumbered : Numbered windows)
    (hleaves : ∀ w ∈ windows, ∃ pair, runSingleWindow engine cfg.mode w = .ok pair)
    (hne : windows ≠ []) {events : List (Event (Json F))}
    (hrun : Admissible (step (walkForwardJob numerics cfg windows hne))
      (LeavesComputed engine cfg.mode windows) {} events) :
    let s := run (step (walkForwardJob numerics cfg windows hne)) {} events
    let sequential := runSequential numerics cfg engine (fun _ => false) windows
    (∀ entry ∈ s.finished, entry.2 = sequential.toOption) ∧
      (s.Settled (walkForwardJob numerics cfg windows hne) →
        s.finished.map Prod.snd = [sequential.toOption]) := by
  intro s sequential
  have hindex : ∀ j < (walkForwardJob numerics cfg windows hne).total,
      payloadIndex (expectedPartial engine cfg.mode windows j) = j := by
    intro j hj
    have hj : j < windows.length := hj
    have hexpected : expectedPartial engine cfg.mode windows j =
        stagedPartial engine cfg.mode windows[j] := by
      simp [expectedPartial, hj]
    rw [hexpected, payloadIndex_stagedPartial, hnumbered.index_getElem hj]
  have hsequential : (walkForwardJob numerics cfg windows hne).finalizeResult
      (inOrder (walkForwardJob numerics cfg windows hne)
        (expectedPartial engine cfg.mode windows)) = sequential.toOption := by
    rw [finalizeResult_inOrder, ← runSequential_eq hleaves]
  obtain ⟨hinv, haggregating⟩ := Aggregating.run hindex
    (hrun.mono fun _ _ h => stagesOnce_of_computed h)
  refine ⟨fun entry hentry => ?_, fun hsettled => ?_⟩
  · rcases haggregating.finished_eq with hnil | hone
    · rw [hnil] at hentry
      cases hentry
    · have hmem : entry.2 ∈ s.finished.map Prod.snd := List.mem_map_of_mem hentry
      rw [hone, hsequential] at hmem
      exact List.mem_singleton.mp hmem
  · have hcalls : s.finalizations ≠ [] := by
      intro hnil
      have hlength := hinv.calls_of_settled hsettled
      rw [hnil] at hlength
      cases hlength
    rw [haggregating.written hcalls, hsequential]
    intro i hawaiting
    by_cases hi : i < (walkForwardJob numerics cfg windows hne).total
    · rw [hsettled.2 i hi] at hawaiting
      exact hawaiting
    · have hunsent : s.leaves i = .unsent := by
        by_contra hsent
        exact hi (hinv.lt_total hsent)
      rw [hunsent] at hawaiting
      exact hawaiting

end Agreement

/-! ## Both runs agree -/

/-- Where every window gives a result, the partial results of all windows, staged in any order, some
perhaps more than once, and loaded in any order, aggregate to what the sequential run returns. So
does what the finalizer of a fanned-out run writes, in every interleaving in which each window is
counted once. Whatever the result of a window, decoding its staged form gives it back. -/
theorem fanned_out_agrees_with_sequential {F : Type} [Add F] [Sub F] [Mul F] [Div F] [IntCast F]
    [BEq F] [LT F] [DecidableLT F] [LE F] [DecidableLE F] (numerics : Numerics F)
    (cfg : AggregationConfig F) (engine : WindowEngine F) {windows : List DatedWindow}
    (hnumbered : Numbered windows)
    (hleaves : ∀ w ∈ windows, ∃ pair, runSingleWindow engine cfg.mode w = .ok pair) :
    let sequential := runSequential numerics cfg engine (fun _ => false) windows
    (∀ finished : List DatedWindow, (∀ w, w ∈ finished ↔ w ∈ windows) →
      ∀ loaded, loaded.Perm (stageAll engine cfg.mode finished).loadPartials →
        aggregatePartials numerics cfg loaded = sequential) ∧
    (∀ (hne : windows ≠ []) (events : List (Event (Json F))),
      Admissible (step (walkForwardJob numerics cfg windows hne))
        (LeavesComputed engine cfg.mode windows) {} events →
      let s := run (step (walkForwardJob numerics cfg windows hne)) {} events
      (∀ entry ∈ s.finished, entry.2 = sequential.toOption) ∧
        (s.Settled (walkForwardJob numerics cfg windows hne) →
          s.finished.map Prod.snd = [sequential.toOption])) ∧
    ∀ (result : WindowResult F) (isObjective : Option F),
      windowPartialFromDict (windowPartialToDict result isObjective) = .ok (result, isObjective) := by
  intro sequential
  refine ⟨fun finished hfinished loaded hloaded => ?_, fun hne events hrun => ?_,
    windowPartialFromDict_toDict⟩
  · rw [aggregatePartials_perm hnumbered (hloaded.trans (stageAll_loadPartials hnumbered hfinished))]
    exact (runSequential_eq hleaves).symm
  · exact walkForwardJob_results hnumbered hleaves hne hrun

section Witness

open IsoTimestamps

/-- Midnight of a day of January 2024. -/
def january (day : ℕ) (h : 1 ≤ day ∧ day ≤ daysInMonth 2024 1) : Timestamp :=
  ⟨2024, 1, day, 0, 0, 0, 0, none, by decide, Timestamp.january_valid, h, Timestamp.midnight_valid,
    Timestamp.wholeSecond_valid⟩

def januaryWindows : List DatedWindow :=
  [⟨0, january 1 (by decide), january 2 (by decide), january 2 (by decide), january 3 (by decide)⟩,
    ⟨1, january 2 (by decide), january 3 (by decide), january 3 (by decide), january 4 (by decide)⟩]

/-- A trade of the first window that ends where it began. -/
def flatTrade : ExecutedTrade ℚ where
  id := "t1"
  orderId := "o1"
  symbol := "WIN"
  action := .buy
  quantity := 1
  entryTime := january 2 (by decide)
  entryPrice := 100
  exitTime := some (january 3 (by decide))
  exitPrice := some 100
  status := .closed
  pnl := some 0
  commission := 0
  pointValue := 1
  exitReason := none

/-- The first window trades, the second finds no usable trial. -/
def januaryEngine : WindowEngine ℚ where
  optimize w := .ok (if w.index = 0 then
    some { strategyParams := [("period", .int 9)], riskParams := [], managerParams := []
           metrics := [("total_pnl", .float 5)], bestParams := [("period", .int 9)] }
    else none)
  backtest _ _ := .ok ([("total_pnl", .float 0)], [flatTrade])

/-- The equity never moves, so each daily return is zero and so is their deviation. -/
def flatNumerics : Numerics ℚ where
  dailyReturns curve :=
    let days := (curve.getLast?.map Prod.fst).getD 0 - (curve.head?.map Prod.fst).getD 0
    List.replicate (days / oneDay).toNat 0
  std returns := if returns.all (· = 0) then some 0 else none
  sqrt x := x

def januaryConfig : AggregationConfig ℚ where
  initialCapital := 1000
  start := january 1 (by decide)
  stop := january 4 (by decide)
  mode := .maximizeNetProfit

/-- The second window finishes first, and a second time after the first one. -/
theorem fanned_out_agrees_reordered :
    aggregatePartials flatNumerics januaryConfig
        (stageAll januaryEngine .maximizeNetProfit
          (januaryWindows.reverse ++ januaryWindows.drop 1)).loadPartials =
      runSequential flatNumerics januaryConfig januaryEngine (fun _ => false) januaryWindows ∧
    (runSequential flatNumerics januaryConfig januaryEngine (fun _ => false)
      januaryWindows).toOption.isSome = true := by
  refine ⟨?_, by decide +kernel⟩
  have hleaves : ∀ w ∈ januaryWindows, ∃ pair,
      runSingleWindow januaryEngine januaryConfig.mode w = .ok pair := by
    intro w hw
    rcases List.mem_pair.mp hw with rfl | rfl
    · exact ⟨_, rfl⟩
    · exact ⟨_, rfl⟩
  refine (fanned_out_agrees_with_sequential flatNumerics januaryConfig januaryEngine (by rfl)
    hleaves).1 _ (fun w => ?_) _ (.refl _)
  simp [januaryWindows]
  tauto

end Witness

end QBackend.Optimization
