import QBackend.EvaluatorCalls
import QBackend.OrderStacking

/-!
# The evaluator's view of the position

The open trade of an evaluator is the position that `build_runtime` read. No poll refreshes it,
so it agrees with the books exactly as long as the position is still that one.
-/

namespace QBackend.Execution

open KeyedTables FallibleSteps StatefulActions RunInvariants

/-- Side, quantity and entry price of a position that is not flat. -/
def ExecutionNetPosition.view (p : ExecutionNetPosition) : Option (ExecutionSide × ℚ × Option ℚ) :=
  if p.side = .flat ∨ p.quantity ≤ 0 then none
  else some (if p.side = .long then .buy else .sell, p.quantity, p.averageEntryPrice)

def Trade.view (t : Trade) : ExecutionSide × ℚ × Option ℚ := (t.action, t.quantity, some t.entryPrice)

/-- The open trade is there exactly when the position is not flat, with its side, quantity and
entry price. -/
def AgreesWith (trade : Option Trade) (position : Option ExecutionNetPosition) : Prop :=
  trade.map Trade.view = position.bind ExecutionNetPosition.view

instance (trade : Option Trade) (position : Option ExecutionNetPosition) :
    Decidable (AgreesWith trade position) :=
  inferInstanceAs (Decidable (_ = _))

/-- The position has not changed since the runtime was built. -/
def Evaluation.PositionUnchanged (e : Evaluation) : Prop :=
  e.position.bind ExecutionNetPosition.view = e.builtPosition.bind ExecutionNetPosition.view

theorem executionPositionToTrade_agrees {deployment : ExecutionDeployment}
    {position : ExecutionNetPosition} {pointValue : ℚ} {trade : Option Trade}
    (h : executionPositionToTrade deployment position pointValue = .ok trade) :
    AgreesWith trade (some position) := by
  unfold executionPositionToTrade at h
  simp only [AgreesWith, Option.bind_some, ExecutionNetPosition.view]
  split at h
  next hflat =>
    cases h
    rw [if_pos hflat]
    rfl
  next hopen =>
    rw [if_neg hopen]
    split at h
    next entryPrice entryTime hprice _ =>
      cases h
      simp [Trade.view, hprice]
    · cases h

theorem openTradeOf_agrees {deployment : ExecutionDeployment}
    {position : Option ExecutionNetPosition} {pointValue : ℚ} {trade : Option Trade}
    (h : openTradeOf deployment position pointValue = .ok trade) : AgreesWith trade position := by
  cases position with
  | none =>
    cases h
    rfl
  | some position => exact executionPositionToTrade_agrees h

section Build

variable {S : Type} {cfg : WorkerConfig S}

theorem warmUp_identity {strategy : TradingStrategy S} {ev ev' : Evaluator S}
    {batch : Option CompletedBarBatch} (hmode : ev.replayMode = false)
    (h : warmUp strategy ev batch = .ok ev') : ev'.identity = ev.identity := by
  unfold warmUp at h
  split at h
  · cases h
    rfl
  · split at h
    · cases h
      rfl
    · split at h
      · cases h
        rfl
      next batch _ _ close _ =>
        have hreplay := Evaluator.ingestCompletedBars_identity strategy { ev with replayMode := true }
          batch.frame (some close)
        split at h
        · cases h
        next ev₁ _ heq =>
          cases h
          simp only [Evaluator.replayRecovery, Prod.mk.injEq] at heq
          rw [← heq.1]
          simp only [Evaluator.identity, Prod.mk.injEq] at hreplay ⊢
          exact ⟨hreplay.1, hreplay.2.1, hreplay.2.2.1, hreplay.2.2.2.1, hmode.symm⟩

/-- A runtime as `build_runtime` hands it over. -/
structure BuiltFrom (db : Database) (deployment : ExecutionDeployment) (r : Runtime S) : Prop where
  deploymentId : r.deploymentId = deployment.id
  passed : r.passed = []
  timeframe : r.evaluator.timeframe = deployment.timeframe.toUpper
  replayMode : r.evaluator.replayMode = false
  builtPosition : r.builtPosition = db.getOpenNetPosition deployment.id
  agrees : AgreesWith r.evaluator.openTrade r.builtPosition

theorem buildRuntime_spec {coordinator : BarCoordinator} {db : Database}
    {deployment : ExecutionDeployment} {token : String} {r : Runtime S}
    (h : buildRuntime cfg coordinator db deployment token = .ok r) : BuiltFrom db deployment r := by
  simp only [buildRuntime, bind_eq_ok, pure_eq_ok] at h
  obtain ⟨trade, htrade, ⟨s, windowBound⟩, -, batches, -, ev, hev, rfl⟩ := h
  have hidentity := warmUp_identity (by rfl) hev
  simp only [Evaluator.identity, Prod.mk.injEq] at hidentity
  obtain ⟨-, htimeframe, -, hopen, hmode⟩ := hidentity
  refine ⟨rfl, rfl, htimeframe, hmode, rfl, ?_⟩
  rw [hopen]
  exact openTradeOf_agrees htrade

end Build

/-! ## The invariant -/

section Runs

variable {S : Type} {cfg : WorkerConfig S}

/-- Every evaluation so far used the position of its runtime's build. -/
def BuiltEvaluations (w : Worker S) : Prop :=
  ∀ e ∈ w.evaluations, AgreesWith e.openTrade e.builtPosition

/-- Each runtime holds the trade of its build, and no deployment has two runtimes. -/
structure BuiltRuntimes (w : Worker S) : Prop where
  alive : w.alive = true
  nodup : (w.runtimes.map Runtime.deploymentId).Nodup
  runtimes : ∀ r ∈ w.runtimes, AgreesWith r.evaluator.openTrade r.builtPosition
  evaluations : BuiltEvaluations w

theorem BuiltRuntimes.after {w : Worker S} (h : BuiltRuntimes w) (e : Event) :
    BuiltRuntimes (w.after cfg e) := ⟨h.alive, h.nodup, h.runtimes, h.evaluations⟩

/-- An update that keeps the trade of every runtime it meets. -/
theorem BuiltRuntimes.updateRuntime {w : Worker S} (h : BuiltRuntimes w) {id : ℕ}
    {f : Runtime S → Runtime S} (hid : ∀ r, (f r).deploymentId = r.deploymentId)
    (hf : ∀ r ∈ w.runtimes, r.deploymentId = id →
      AgreesWith (f r).evaluator.openTrade (f r).builtPosition) :
    BuiltRuntimes (w.updateRuntime id f) := by
  refine ⟨h.alive, ?_, fun r hr => ?_, h.evaluations⟩
  · rw [Worker.map_updateRuntime hid]
    exact h.nodup
  · rcases mem_modify.mp hr with ⟨r₀, hr₀, hkey, rfl⟩ | ⟨hr, -⟩
    · exact hf r₀ hr₀ hkey
    · exact h.runtimes r hr

theorem BuiltRuntimes.opened {w : Worker S} (h : BuiltRuntimes w) {r : Runtime S}
    (hnone : w.runtime r.deploymentId = none)
    (hr : AgreesWith r.evaluator.openTrade r.builtPosition) :
    BuiltRuntimes { w with runtimes := w.runtimes ++ [r] } := by
  refine ⟨h.alive, Worker.nodup_opened h.nodup hnone, fun x hx => ?_, h.evaluations⟩
  rcases List.mem_append.mp hx with hx | hx
  · exact h.runtimes x hx
  · rw [List.mem_singleton.mp hx]
    exact hr

theorem BuiltRuntimes.closed {w : Worker S} (h : BuiltRuntimes w) (id : ℕ) :
    BuiltRuntimes { w with runtimes := w.runtimes.filter (fun x => x.deploymentId ≠ id) } :=
  ⟨h.alive, Worker.nodup_closed h.nodup id, fun r hr => h.runtimes r (List.mem_filter.mp hr).1,
    h.evaluations⟩

theorem serviceCall_builtRuntimes (call : BarCall) (env : BarEnvironment) :
    Triple BuiltRuntimes (serviceCall cfg call env) (fun _ => BuiltRuntimes)
      (Fails BuiltRuntimes BuiltEvaluations) := by
  refine serviceCall_triple (fun w hw => ?_)
  split
  · exact hw.after _
  next f _ =>
    cases f with
    | raised e => exact hw.after _
    | killed => exact hw.evaluations

theorem ingestBatch_builtRuntimes (env : PollEnvironment) (r : Runtime S)
    (deployment : ExecutionDeployment) (bars : List Bar) :
    Triple (fun w => BuiltRuntimes w ∧ Ready r deployment w) (ingestBatch cfg env r bars)
      (fun _ => BuiltRuntimes) (Fails BuiltRuntimes BuiltEvaluations) := by
  refine Triple.bind (Q := fun _ => BuiltRuntimes) (Triple.modify (fun w ⟨hw, hr⟩ => ?_)) (fun _ => ?_)
  · have hmem := mem_of_lookup hr.runtime
    have hagrees : AgreesWith r.evaluator.openTrade r.builtPosition := hw.runtimes { r with deployment } hmem
    have hnoted : BuiltRuntimes (w.noteEvaluation r bars) := by
      refine ⟨hw.alive, hw.nodup, hw.runtimes, fun e he => ?_⟩
      rcases List.mem_append.mp he with he | he
      · exact hw.evaluations e he
      · rw [List.mem_singleton.mp he]
        exact hagrees
    refine hnoted.updateRuntime (fun _ => rfl) (fun x hx hkey => ?_)
    -- The runtime that is updated is the one whose evaluator ran.
    have hsame : x = { r with deployment } := eq_of_mem_of_key hw.nodup hx hmem hkey
    subst hsame
    show AgreesWith (r.evaluator.ingestCompletedBars _ bars none).1.openTrade r.builtPosition
    rw [Evaluator.ingestCompletedBars_openTrade]
    exact hagrees
  · split
    · refine Triple.bind (Q := fun _ => BuiltRuntimes) (Triple.modify (fun w hw => ?_))
        (fun _ => Triple.throw (fun _ hw => hw))
      exact ⟨hw.alive, hw.nodup, hw.runtimes, hw.evaluations⟩
    · refine processResults_triple (fun result remaining => ?_)
      refine (serviceCall_builtRuntimes _ _).conseq (fun _ hw => hw) (fun _ _ hw => hw)
        (fun f w hw => ?_)
      cases f with
      | raised e => exact ⟨hw.alive, hw.nodup, hw.runtimes, hw.evaluations⟩
      | killed => exact hw

theorem kept_builtRuntimes (env : PollEnvironment) :
    Kept cfg env BuiltRuntimes BuiltEvaluations where
  dead w hw := hw.evaluations
  event w e he hw := hw.after e
  refreshed w id deployment hw := hw.updateRuntime (fun _ => rfl) (fun r hr _ => hw.runtimes r hr)
  opened w deployment r hr hnone hrow hw := by
    have hbuilt := buildRuntime_spec hr
    exact hw.opened (hbuilt.deploymentId ▸ hnone) hbuilt.agrees
  closed w id _ hw := hw.closed id
  cleared w id hw := hw.after (.clearPending id)
  flattened id token := serviceCall_builtRuntimes _ _
  ingested r deployment bars hbars := ingestBatch_builtRuntimes env r deployment bars

theorem keptRuns_builtRuntimes :
    KeptRuns cfg (fun _ => True) BuiltRuntimes BuiltEvaluations where
  alive w hw := hw.alive
  poll env henv := kept_builtRuntimes env
  start quotes broker now w hgood hw := ⟨hw, fun _ => ⟨rfl, by simp, by simp, hw⟩⟩
  operate w command hw := hw.after _
  operateDead w command hw := hw
  release w id token hw := (hw.closed id).after _
  commit w hw := hw.after _
  dead w hw := hw.evaluations
  die w hw := hw

end Runs

/-- In every run, an evaluation agrees with the books if and only if the position is the one its
runtime was built with. -/
theorem evaluator_agrees_iff_position_unchanged {S : Type} (cfg : WorkerConfig S) (w : Worker S)
    (hoff : w.alive = false) (hnew : w.evaluations = []) (events : List WorkerEvent) :
    ∀ e ∈ (run (Worker.step cfg) w events).evaluations,
      AgreesWith e.openTrade e.position ↔ e.PositionUnchanged := by
  have hfinal : Holds BuiltRuntimes BuiltEvaluations (run (Worker.step cfg) w events) :=
    keptRuns_builtRuntimes.run (fun _ _ => trivial) (.inr ⟨hoff, by simp [BuiltEvaluations, hnew]⟩)
  have hbuilt : BuiltEvaluations (run (Worker.step cfg) w events) := by
    rcases hfinal with ⟨-, hlive⟩ | ⟨-, hdead⟩
    · exact hlive.evaluations
    · exact hdead
  intro e he
  have hagrees : e.openTrade.map Trade.view = e.builtPosition.bind ExecutionNetPosition.view :=
    hbuilt e he
  rw [AgreesWith, Evaluation.PositionUnchanged, hagrees]
  exact eq_comm

/-- Two minutes of a strategy that buys on every bar. -/
def fillingRun : List WorkerEvent :=
  [deskStart 1, .poll (deskPoll 1 (paperBroker (deskQuotes 60000000) 60000000) noCrash),
    .poll (deskPoll 2 (paperBroker (deskQuotes 120000000) 120000000) noCrash)]

/-- The second bar is evaluated without a trade although the position is long. -/
theorem fill_leaves_evaluator_without_trade :
    ¬ ∀ e ∈ (run (Worker.step deskConfig) deskWorker fillingRun).evaluations,
      AgreesWith e.openTrade e.position := by
  decide +kernel

theorem evaluator_agrees_first_bar :
    ∃ e ∈ (run (Worker.step deskConfig) deskWorker fillingRun).evaluations,
      AgreesWith e.openTrade e.position := by
  obtain ⟨e, he, hunchanged⟩ : ∃ e ∈ (run (Worker.step deskConfig) deskWorker fillingRun).evaluations,
      e.position.bind ExecutionNetPosition.view = e.builtPosition.bind ExecutionNetPosition.view := by
    decide +kernel
  exact ⟨e, he, (evaluator_agrees_iff_position_unchanged deskConfig deskWorker rfl rfl fillingRun e
    he).mpr hunchanged⟩

end QBackend.Execution
